import Shortfall.Catalog

/-!
# The built-in catalog

The categories every analysis starts from.
-/

namespace Shortfall.Catalog

def builtin : Catalog where
  categories := [
    { id := "PATH_TRAVERSAL"
      name := "Path traversal"
      triggers := ["path-traversal", "file", "path", "directory", "access-control"]
      recommendations := [
        "Canonicalize file paths and reject any that resolve outside the allowed base directory",
        "Add tests that submit ../ sequences, absolute paths and encoded separators",
        "Enforce access control on every file read and write the handler performs"]
      cwe := ["CWE-22"] },
    { id := "SQL_INJECTION"
      name := "SQL injection"
      triggers := ["sql-injection", "database", "query", "sql"]
      recommendations := [
        "Use parameterized queries or prepared statements for every query built from input",
        "Add tests that submit quote characters, comment sequences and UNION payloads",
        "Run the data access layer with least-privilege database credentials"]
      cwe := ["CWE-89"] },
    { id := "XSS"
      name := "Cross-site scripting"
      triggers := ["xss", "cross-site-scripting", "script", "html-escape"]
      recommendations := [
        "Encode output for its HTML, attribute, JavaScript or URL context",
        "Add tests asserting that script tags and event-handler attributes are escaped",
        "Set a restrictive Content-Security-Policy header"]
      cwe := ["CWE-79"] },
    { id := "COMMAND_INJECTION"
      name := "Command injection"
      triggers := ["command-injection", "command", "execute", "shell"]
      recommendations := [
        "Invoke processes with an argument vector instead of a shell string",
        "Validate input against an allow-list before it reaches process execution",
        "Add tests that submit shell metacharacters such as ; | && and $()"]
      cwe := ["CWE-78"] },
    { id := "SSRF"
      name := "Server-side request forgery"
      triggers := ["ssrf", "server-side-request-forgery", "url", "request-forgery"]
      recommendations := [
        "Restrict outbound requests to an allow-list of hosts and schemes",
        "Add tests that request loopback, link-local and cloud metadata addresses"]
      cwe := ["CWE-918"] },
    { id := "XXE"
      name := "XML external entity"
      triggers := ["xxe", "xml", "external-entity"]
      recommendations := [
        "Disable DTD processing and external entity resolution in XML parsers",
        "Add tests that submit documents declaring external entities"]
      cwe := ["CWE-611"] },
    { id := "DESERIALIZATION"
      name := "Unsafe deserialization"
      triggers := ["deserialization", "deserialize", "unserialize", "serialization"]
      recommendations := [
        "Deserialize untrusted data only into explicit, allow-listed types",
        "Add tests that submit gadget payloads and unexpected type tags"]
      cwe := ["CWE-502"] },
    { id := "OPEN_REDIRECT"
      name := "Open redirect"
      triggers := ["open-redirect", "redirect"]
      recommendations := [
        "Redirect only to relative paths or allow-listed destinations",
        "Add tests that submit absolute and protocol-relative redirect targets"]
      cwe := ["CWE-601"] }]

end Shortfall.Catalog
