import CodeCalc.Lib.Base64
import CodeCalc.Lib.JsonText

/-! The canonical encoding of a request.  A Python object is filed under the
first test of `_encode` that it passes, so an `IntEnum` member is an integer
here and a dataclass is an instance whatever else it may be. -/
namespace CodeCalc.SpecIdentity
open Lib

inductive BytesKind where
  | bytes
  | bytearray
  | memoryview
  deriving DecidableEq

/-- The two sequence types that may name variables, and the others. -/
inductive SeqKind where
  | list
  | tuple
  | other (typeName : Text)
  deriving DecidableEq

/-- What the encoder reads of a dataclass: its name and two class attributes. -/
structure DataClass where
  name : Text
  hashByNameFields : List Text
  notSecretFields : List Text
  deriving DecidableEq

/-- A mapping key.  Only the `repr` of a key that is no string is ever used. -/
inductive Key where
  | str (text : Text)
  | other (repr : Text)
  deriving DecidableEq

inductive Value where
  | none
  | bool (value : Bool)
  | int (value : Int)
  | str (text : Text)
  | float
  | bytes (kind : BytesKind) (content : List UInt8)
  | enum (typeName : Text) (value : Value)
  | inst (cls : DataClass) (fields : List (Text × Value))
  | map (entries : List (Key × Value))
  | seq (kind : SeqKind) (items : List Value)
  | other (typeName : Text)

inductive Failure where
  /-- `UncanonicalizableValue(path, detail)`. -/
  | uncanonicalizable (path detail : Text)
  /-- `int` to `str` beyond `sys.get_int_max_str_digits()`: a `ValueError`. -/
  | integerTooLong
  /-- A lone surrogate reached `encode("utf-8")`: a `UnicodeEncodeError`. -/
  | surrogate
  deriving DecidableEq

def computationSpecVersion : Text := Text.ofString "1.0.0"

def bytesTag : Text := Text.ofString "__bytes_b64__"

section Secrets

def secretBearingWords : List Text :=
  ["api_key", "apikey", "auth", "authorization", "credential", "credentials", "env", "environ",
    "environment", "key", "password", "secret", "secrets", "token"].map Text.ofString

def isUpper (code : CodePoint) : Bool := decide (65 ≤ code.val ∧ code.val ≤ 90)

def isLower (code : CodePoint) : Bool := decide (97 ≤ code.val ∧ code.val ≤ 122)

/-- `_NAME_TOKENS.split(name)`: at every character that is no ASCII letter or
digit, and between a lower-case letter or digit and an upper-case letter.
`token` is the part read so far, backwards. -/
def nameTokens (token : Text) : Text → List Text
  | [] => [token.reverse]
  | code :: rest =>
      if (isUpper code || isLower code || isDigit code) = false then
        token.reverse :: nameTokens [] rest
      else if isUpper code && token.head?.any (fun last => isLower last || isDigit last) then
        token.reverse :: nameTokens [code] rest
      else nameTokens (code :: token) rest

/-- `name.lower()` as far as an ASCII word can tell: beside the ASCII capitals
only the Kelvin sign has an ASCII lower case. -/
def lower (name : Text) : Text :=
  name.map fun code =>
    if isUpper code then Fin.ofNat _ (code.val + 32)
    else if code.val = 0x212A then 'k'
    else code

def secretBearing (name : Text) : Bool :=
  (((nameTokens [] name).filter (· ≠ [])).map lower ++ [lower name]).any (· ∈ secretBearingWords)

end Secrets

section Encoder

def BytesKind.typeName : BytesKind → Text
  | .bytes => Text.ofString "bytes"
  | .bytearray => Text.ofString "bytearray"
  | .memoryview => Text.ofString "memoryview"

def SeqKind.typeName : SeqKind → Text
  | .list => Text.ofString "list"
  | .tuple => Text.ofString "tuple"
  | .other typeName => typeName

/-- `type(value).__name__`. -/
def Value.typeName : Value → Text
  | .none => Text.ofString "NoneType"
  | .bool _ => Text.ofString "bool"
  | .int _ => Text.ofString "int"
  | .str _ => Text.ofString "str"
  | .float => Text.ofString "float"
  | .bytes kind _ => kind.typeName
  | .enum typeName _ => typeName
  | .inst cls _ => cls.name
  | .map _ => Text.ofString "dict"
  | .seq kind _ => kind.typeName
  | .other typeName => typeName

def Key.name : Key → Option Text
  | .str text => some text
  | .other _ => none

def Value.name : Value → Option Text
  | .str text => some text
  | _ => .none

/-- What a name-hashed field lists: the keys of a mapping, the items of a list
or tuple, each with its text when it is a string. -/
def Value.listedNames : Value → Option (List (Option Text))
  | .map entries => some (entries.map fun entry => entry.1.name)
  | .seq .list items => some (items.map Value.name)
  | .seq .tuple items => some (items.map Value.name)
  | _ => .none

def sortNames (names : List Text) : List Text := names.insertionSort (· ≤ ·)

def encodeNamesOnly (value : Value) (path : Text) : Except Failure Doc :=
  match value with
  | .none => .ok .null
  | value =>
      match value.listedNames with
      | none => .error (.uncanonicalizable path
          (Text.ofString "a name-hashed field must be a mapping, list or None, not " ++
            value.typeName))
      | some names =>
          match names.mapM id with
          | none => .error (.uncanonicalizable path
              (Text.ofString "a name-hashed field must name strings"))
          | some names => .ok (.arr ((sortNames names).map .str))

/-- Where a field is: the root has the empty path. -/
def fieldPath (path name : Text) : Text :=
  if path = [] then name else path ++ Text.ofString "." ++ name

mutual

def encode : Value → Text → Except Failure Doc
  | .none, _ => .ok .null
  | .bool value, _ => .ok (.bool value)
  | .str text, _ => .ok (.str text)
  | .int value, _ => .ok (.int value)
  | .float, path => .error (.uncanonicalizable path
      (Text.ofString ("float has no canonical decimal form across runtimes; carry the " ++
        "value as an int or a string, or extend this module deliberately")))
  | .bytes _ content, _ => .ok (.obj [(bytesTag, .str (Base64.encode content))])
  | .enum _ value, path => encode value path
  | .inst cls fields, path => (encodeDataclass cls fields path).map .obj
  | .map entries, path => (encodeEntries entries path).map .obj
  | .seq _ items, path => (encodeItems items path 0).map .arr
  | .other typeName, path => .error (.uncanonicalizable path
      (typeName ++ Text.ofString " has no canonical encoding rule"))

def encodeEntries : List (Key × Value) → Text → Except Failure (List (Text × Doc))
  | [], _ => .ok []
  | (.other repr, _) :: _, path => .error (.uncanonicalizable path
      (Text.ofString "mapping key " ++ repr ++ Text.ofString (" is not a string; JSON has no " ++
        "other key type and coercing one would collide with a real string key")))
  | (.str key, item) :: entries, path =>
      if key = bytesTag then .error (.uncanonicalizable path
        (Text.ofString ("'__bytes_b64__' is reserved for the bytes encoding and " ++
          "may not be used as a mapping key")))
      else if secretBearing key then .error (.uncanonicalizable
        (path ++ Text.ofString "." ++ key)
        (Text.ofString ("a mapping key that names a credential may not be hashed by " ++
          "value; carry the secret outside the spec, or reduce the mapping to its key " ++
          "names via HASH_BY_NAME_FIELDS")))
      else
        match encode item (path ++ Text.ofString "." ++ key) with
        | .error failure => .error failure
        | .ok doc => (encodeEntries entries path).map ((key, doc) :: ·)

def encodeItems : List Value → Text → Nat → Except Failure (List Doc)
  | [], _, _ => .ok []
  | item :: items, path, index =>
      match encode item (path ++ Text.ofString "[" ++ decimal index ++ Text.ofString "]") with
      | .error failure => .error failure
      | .ok doc => (encodeItems items path (index + 1)).map (doc :: ·)

def encodeDataclass (cls : DataClass) : List (Text × Value) → Text →
    Except Failure (List (Text × Doc))
  | [], _ => .ok []
  | (name, value) :: fields, path =>
      let encoded :=
        if name ∈ cls.hashByNameFields then encodeNamesOnly value (fieldPath path name)
        else if name ∉ cls.notSecretFields ∧ secretBearing name then
          .error (.uncanonicalizable (fieldPath path name)
            (Text.ofString ("a secret-bearing field name may not be hashed by value. " ++
              "Declare it in the dataclass's HASH_BY_NAME_FIELDS to hash " ++
              "only its key names, or — if the token rule caught an " ++
              "innocent name like `token_budget` — in NOT_SECRET_FIELDS " ++
              "to keep hashing the value")))
        else encode value (fieldPath path name)
      match encoded with
      | .error failure => .error failure
      | .ok doc => (encodeDataclass cls fields path).map ((name, doc) :: ·)

end

def canonicalDocument : Value → Except Failure Doc
  | .inst cls fields => (encodeDataclass cls fields []).map fun members =>
      .obj [(Text.ofString "schema_version", .str computationSpecVersion),
        (Text.ofString "spec", .obj members)]
  | _ => .error (.uncanonicalizable (Text.ofString "<root>")
      (Text.ofString "a computation spec must be a dataclass instance"))

/-- `sys.get_int_max_str_digits()` as the interpreter sets it. -/
def intMaxStrDigits : Nat := 4300

/-- `json.dumps` with `sort_keys`, `ensure_ascii=False` and compact separators. -/
def dumps (doc : Doc) : Except Failure Text :=
  if doc.ints.all fun value => (decimal value.natAbs).length ≤ intMaxStrDigits then
    .ok doc.compact
  else .error .integerTooLong

def encodeUtf8 (text : Text) : Except Failure ByteArray :=
  match text.utf8 with
  | some bytes => .ok bytes
  | none => .error .surrogate

def canonicalBytes (spec : Value) : Except Failure ByteArray := do
  let document ← canonicalDocument spec
  let text ← dumps document
  encodeUtf8 text

end Encoder

end CodeCalc.SpecIdentity
