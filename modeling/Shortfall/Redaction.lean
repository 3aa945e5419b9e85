import Shortfall.Redaction.Pattern

/-!
# Redaction of credentials

Test names, data-flow paths and error texts often carry literal passwords and tokens. Before any
of them is logged or printed, each span that looks like a credential is replaced by a
placeholder. The rules are applied one after another, each to the result of those before it.
-/

namespace Shortfall.Redaction

def placeholder : Text := "[REDACTED]"

/-! ## Character classes -/

def isLetter (c : Char) : Bool := ('a' ≤ c && c ≤ 'z') || ('A' ≤ c && c ≤ 'Z')

def isDigit (c : Char) : Bool := '0' ≤ c && c ≤ '9'

def isAlnum (c : Char) : Bool := isLetter c || isDigit c

/-- Letters in any case: the long s and the Kelvin sign are letters too, as other forms of `s`
and `k`. -/
def isAlnumAnyCase (c : Char) : Bool := isAlnum (Text.foldKey c)

def isWordOrHyphen (c : Char) : Bool := isAlnum c || c = '_' || c = '-'

def isSpace (c : Char) : Bool := c = ' ' || c = '\t' || c = '\n' || c = '\x0c' || c = '\r'

def isQuote (c : Char) : Bool := c = '\'' || c = '"'

/-! ## Parts that rules share -/

def oneOf (chars : String) : Part := .run (fun c => chars.toList.contains c) 1 (some 1)

def exactly (n : Nat) (inClass : Char → Bool) : Part := .run inClass n (some n)

def atLeast (n : Nat) (inClass : Char → Bool) : Part := .run inClass n none

def literal (word : String) : Part := .word false [word.toList]

/-- A key in any case, an equals sign or a colon, and a value that may stand in quotes. -/
def assignment (keys : List String) (value : Part) : Pattern := [
  .word true (keys.map String.toList), atLeast 0 isSpace, oneOf "=:", atLeast 0 isSpace,
  .run isQuote 0 (some 1), value, .run isQuote 0 (some 1)]

structure Rule where
  name : Text
  pattern : Pattern

/-- The rules, in the order in which they are applied. -/
def rules : List Rule := [
  { name := "aws-key-assignment"
    pattern := assignment ["aws_access_key_id", "aws_secret_access_key", "aws_session_token"]
      (atLeast 20 fun c => isAlnumAnyCase c || c = '/' || c = '+' || c = '=') },
  { name := "aws-access-key"
    pattern := [literal "AKIA", exactly 16 fun c => isDigit c || ('A' ≤ c && c ≤ 'Z')] },
  { name := "github-token-assignment"
    pattern := assignment ["github_token", "gh_token", "github_pat"]
      (atLeast 30 fun c => isAlnumAnyCase c || c = '_' || c = '-') },
  { name := "github-token"
    pattern := [literal "gh", oneOf "pousr", literal "_", exactly 36 isAlnum] },
  { name := "api-key-assignment"
    pattern := assignment
      ["api_key", "apikey", "api-key", "secret_key", "secretkey", "secret-key", "access_token",
        "auth_token", "client_secret"]
      (atLeast 16 fun c => isAlnumAnyCase c || c = '_' || c = '-') },
  { name := "private-key"
    pattern := [
      literal "-----BEGIN ",
      .word false (["RSA ", "EC ", "DSA ", "OPENSSH ", "PGP ", ""].map String.toList),
      literal "PRIVATE KEY-----"] },
  { name := "jwt"
    pattern := [
      literal "eyJ", atLeast 8 isWordOrHyphen, literal ".eyJ", atLeast 8 isWordOrHyphen,
      literal ".", atLeast 8 isWordOrHyphen] },
  { name := "bearer"
    pattern := [
      .word true ["bearer".toList], atLeast 1 isSpace,
      atLeast 20 fun c => isAlnumAnyCase c || "._~+/-".toList.contains c,
      atLeast 0 (· = '=')] },
  { name := "url-credentials"
    pattern := [
      exactly 1 isLetter, atLeast 0 fun c => isAlnum c || "+.-".toList.contains c,
      literal "://", atLeast 1 fun c => !(c = ':' || c = '/' || c = '@' || isSpace c),
      literal ":", atLeast 1 fun c => !(c = '@' || isSpace c), literal "@"] },
  { name := "slack-token"
    pattern := [
      literal "xox", oneOf "baprs", literal "-", .run isDigit 10 (some 13), literal "-",
      .run isDigit 10 (some 13), atLeast 0 fun c => isAlnum c || c = '-'] },
  { name := "stripe-key"
    pattern := [oneOf "sr", literal "k_live_", exactly 24 isAlnum] },
  { name := "password-assignment"
    pattern := assignment ["password", "passwd", "pwd", "secret"]
      (atLeast 8 fun c => !(isSpace c || isQuote c)) }]

/-- Whether a rule finds a credential in the text. -/
def Rule.fires (rule : Rule) (text : Text) : Bool := rule.pattern.occurs text.pieces

def Rule.apply (rule : Rule) (text : Text) : Text := rule.pattern.replace placeholder text

/-- The names of the rules that find a credential in the text. -/
def matching (text : Text) : List Text :=
  (rules.filter fun rule => rule.fires text).map (·.name)

/-- The text with every credential replaced. -/
def redact (text : Text) : Text := rules.foldl (fun text rule => rule.apply text) text

end Shortfall.Redaction
