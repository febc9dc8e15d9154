import PresenceDevice.HttpServer
import PresenceDevice.Library.Reader

/-!
# The bundled JSON library

The part of `cJSON.c` behind `cJSON_Parse`, `cJSON_GetObjectItem` and `cJSON_IsString`. A
`parse_buffer` is what is left of it from its offset on, and a function that fails returns `none`;
what it leaves in its item or in the global error is not used by the handler. Allocations succeed.
The value of a number is a `double` and is left out.

## Main definitions

* `CJsonItem`: the items
* `parseString`, `parseNumber`, `parseArray`, `parseObject`, `parseValue`: the parser
* `cJsonParseWithOpts`, `cJsonParse`: its entry points
* `cJson`: the library as the handler uses it
-/

namespace PresenceDevice

/-- `CJSON_NESTING_LIMIT`. -/
def cJsonNestingLimit : ℕ := 1000

def quotationMark : UInt8 := 0x22

def backslash : UInt8 := 0x5C

/-- A `cJSON` with its children in order, each under its name. The elements of an array have
none. -/
inductive CJsonItem
  | null
  | false
  | true
  | number
  | string (valuestring : CString)
  | array (child : List (Option CString × CJsonItem))
  | object (child : List (Option CString × CJsonItem))

/-- What a function of the parser takes off the buffer, and what is left. -/
abbrev CJsonReader (α : Type) := List UInt8 → Option (α × List UInt8)

/-- `buffer_skip_whitespace`. At the end of the buffer it stays on the last byte. -/
def bufferSkipWhitespace (buffer : List UInt8) : List UInt8 :=
  if buffer.all (· ≤ 32) then buffer.drop (buffer.length - 1)
  else buffer.dropWhile (· ≤ 32)

/-! ### Numbers -/

def isDigit (c : UInt8) : Bool := '0'.toUInt8 ≤ c && c ≤ '9'.toUInt8

/-- The characters that `parse_number` copies. -/
def isNumberChar (c : UInt8) : Bool :=
  isDigit c || c = '+'.toUInt8 || c = '-'.toUInt8 || c = 'e'.toUInt8 || c = 'E'.toUInt8 ||
    c = '.'.toUInt8

def digitsLength (s : List UInt8) : ℕ := (s.takeWhile isDigit).length

def signLength (s : List UInt8) : ℕ :=
  if s.head? = some '+'.toUInt8 ∨ s.head? = some '-'.toUInt8 then 1 else 0

/-- Digits with at most one point among them, or nothing. -/
def mantissaLength (s : List UInt8) : ℕ :=
  let whole := digitsLength s
  let rest := s.drop whole
  if rest.head? = some '.'.toUInt8 then
    let fraction := digitsLength rest.tail
    if whole + fraction = 0 then 0 else whole + 1 + fraction
  else whole

/-- An exponent with at least one digit, or nothing. -/
def exponentLength (s : List UInt8) : ℕ :=
  if s.head? = some 'e'.toUInt8 ∨ s.head? = some 'E'.toUInt8 then
    let sign := signLength s.tail
    let digits := digitsLength (s.tail.drop sign)
    if digits = 0 then 0 else 1 + sign + digits
  else 0

/-- The number of characters that `strtod` converts, of those that `isNumberChar` lets through. -/
def strtodLength (s : List UInt8) : ℕ :=
  let sign := signLength s
  let mantissa := mantissaLength (s.drop sign)
  if mantissa = 0 then 0
  else sign + mantissa + exponentLength (s.drop (sign + mantissa))

/-- `parse_number`. -/
def parseNumber : CJsonReader CJsonItem := fun buffer =>
  let consumed := strtodLength (buffer.takeWhile isNumberChar)
  if consumed = 0 then none else some (.number, buffer.drop consumed)

/-! ### Strings -/

def hexDigit (c : UInt8) : Option ℕ :=
  if '0'.toUInt8 ≤ c ∧ c ≤ '9'.toUInt8 then some (c - '0'.toUInt8).toNat
  else if 'A'.toUInt8 ≤ c ∧ c ≤ 'F'.toUInt8 then some (10 + (c - 'A'.toUInt8).toNat)
  else if 'a'.toUInt8 ≤ c ∧ c ≤ 'f'.toUInt8 then some (10 + (c - 'a'.toUInt8).toNat)
  else none

/-- `parse_hex4`. An invalid digit makes it 0. -/
def parseHex4 (input : List UInt8) : ℕ :=
  match (input.take 4).mapM hexDigit with
  | some digits => digits.foldl (fun h digit => (h <<< 4) + digit) 0
  | none => 0

/-- The bytes of a sequence from the last one to the first, which gets the mark. -/
def encodeAsUtf8 (firstByteMark : ℕ) : ℕ → ℕ → List UInt8 → List UInt8
  | 0, codepoint, output => .ofNat ((codepoint ||| firstByteMark) &&& 0xFF) :: output
  | utf8Position + 1, codepoint, output =>
    encodeAsUtf8 firstByteMark utf8Position (codepoint >>> 6)
      (.ofNat ((codepoint ||| 0x80) &&& 0xBF) :: output)

/-- The encoding of a code point at the end of `utf16_literal_to_utf8`. -/
def codepointToUtf8 (codepoint : ℕ) : Option (List UInt8) :=
  if codepoint < 0x80 then some [.ofNat (codepoint &&& 0x7F)]
  else if codepoint < 0x800 then some (encodeAsUtf8 0xC0 1 codepoint [])
  else if codepoint < 0x10000 then some (encodeAsUtf8 0xE0 2 codepoint [])
  else if codepoint ≤ 0x10FFFF then some (encodeAsUtf8 0xF0 3 codepoint [])
  else none

/-- `utf16_literal_to_utf8`: the bytes written, and the length of the literal. -/
def utf16LiteralToUtf8 (input : List UInt8) : Option (List UInt8 × ℕ) :=
  if input.length < 6 then none
  else
    let firstCode := parseHex4 (input.drop 2)
    if 0xDC00 ≤ firstCode ∧ firstCode ≤ 0xDFFF then none
    else if 0xD800 ≤ firstCode ∧ firstCode ≤ 0xDBFF then
      let secondSequence := input.drop 6
      if secondSequence.length < 6 then none
      else if secondSequence.take 2 ≠ [backslash, 'u'.toUInt8] then none
      else
        let secondCode := parseHex4 (secondSequence.drop 2)
        if secondCode < 0xDC00 ∨ 0xDFFF < secondCode then none
        else
          let codepoint :=
            0x10000 + (((firstCode &&& 0x3FF) <<< 10) ||| (secondCode &&& 0x3FF))
          (codepointToUtf8 codepoint).map (·, 12)
    else (codepointToUtf8 firstCode).map (·, 6)

/-- The `switch` of `parse_string`. A backslash at the very end reads the closing quotation mark
as its second character. -/
def escapeSequence (input : List UInt8) : Option (List UInt8 × ℕ) :=
  let c := input.getD 1 quotationMark
  if c = 'b'.toUInt8 then some ([8], 2)
  else if c = 'f'.toUInt8 then some ([12], 2)
  else if c = 'n'.toUInt8 then some ([10], 2)
  else if c = 'r'.toUInt8 then some ([13], 2)
  else if c = 't'.toUInt8 then some ([9], 2)
  else if c = quotationMark ∨ c = backslash ∨ c = '/'.toUInt8 then some ([c], 2)
  else if c = 'u'.toUInt8 then utf16LiteralToUtf8 input
  else none

/-- The second loop of `parse_string`, with the bytes of the last sequence that are still to be
passed. -/
def unescape : ℕ → List UInt8 → Option (List UInt8)
  | _, [] => some []
  | passed + 1, _ :: input => unescape passed input
  | 0, c :: input =>
    if c = backslash then
      (escapeSequence (c :: input)).bind fun x => (unescape (x.2 - 1) input).map (x.1 ++ ·)
    else (unescape 0 input).map (c :: ·)

/-- The first loop of `parse_string`: the literal up to the closing quotation mark. -/
def stringLiteral : List UInt8 → Option (List UInt8 × List UInt8)
  | [] => none
  | c :: rest =>
    if c = quotationMark then some ([], rest)
    else if c = backslash then
      match rest with
      | [] => none
      | d :: rest => (stringLiteral rest).map fun x => (c :: d :: x.1, x.2)
    else (stringLiteral rest).map fun x => (c :: x.1, x.2)

/-- `parse_string`: the text as a reader of `valuestring` finds it. -/
def parseString : CJsonReader CString := fun buffer =>
  if buffer.head? = some quotationMark then
    (stringLiteral buffer.tail).bind fun x => (unescape 0 x.1).map fun output =>
      (.ofBuffer output, x.2)
  else none

/-! ### Arrays and objects -/

/-- The name of a member, with the colon. -/
def parseName : CJsonReader (Option CString) := fun buffer =>
  (parseString buffer).bind fun x =>
    let buffer := bufferSkipWhitespace x.2
    if buffer.head? = some ':'.toUInt8 then some (some x.1, bufferSkipWhitespace buffer.tail)
    else none

/-- One pass of the loops of `parse_array` and `parse_object`, behind the bracket or comma. -/
def parseChild (readName : CJsonReader (Option CString)) (value : CJsonReader CJsonItem) :
    CJsonReader (Option CString × CJsonItem) := fun buffer =>
  (readName (bufferSkipWhitespace buffer)).bind fun x =>
    (value x.2).map fun y => ((x.1, y.1), bufferSkipWhitespace y.2)

/-- What `parse_array` and `parse_object` have in common, from the opening bracket on. -/
def parseChildren (close : UInt8) (readName : CJsonReader (Option CString))
    (value : CJsonReader CJsonItem) : CJsonReader (List (Option CString × CJsonItem)) :=
  fun buffer =>
    let buffer := bufferSkipWhitespace buffer
    if buffer.head? = some close then some ([], buffer.tail)
    else
      (Reader.sepBy (parseChild readName value) ','.toUInt8 (buffer.length + 1) buffer).bind
        fun x => if x.2.head? = some close then some (x.1, x.2.tail) else none

/-- `parse_array`, behind its bracket. -/
def parseArray (value : CJsonReader CJsonItem) : CJsonReader CJsonItem := fun buffer =>
  (parseChildren ']'.toUInt8 (fun buffer => some (none, buffer)) value buffer).map
    fun x => (.array x.1, x.2)

/-- `parse_object`, behind its bracket. -/
def parseObject (value : CJsonReader CJsonItem) : CJsonReader CJsonItem := fun buffer =>
  (parseChildren '}'.toUInt8 parseName value buffer).map fun x => (.object x.1, x.2)

/-- The branches of `parse_value`. At the nesting limit nothing reads the values in an array or
object. -/
def parseValueWith (nested : Option (CJsonReader CJsonItem)) : CJsonReader CJsonItem :=
  fun buffer =>
    if (CString.ofString "null").bytes <+: buffer then some (.null, buffer.drop 4)
    else if (CString.ofString "false").bytes <+: buffer then some (.false, buffer.drop 5)
    else if (CString.ofString "true").bytes <+: buffer then some (.true, buffer.drop 4)
    else if buffer.head? = some quotationMark then
      (parseString buffer).map fun x => (.string x.1, x.2)
    else if buffer.head? = some '-'.toUInt8 ∨ buffer.head?.any isDigit then parseNumber buffer
    else if buffer.head? = some '['.toUInt8 then
      nested.bind fun value => parseArray value buffer.tail
    else if buffer.head? = some '{'.toUInt8 then
      nested.bind fun value => parseObject value buffer.tail
    else none

/-- `parse_value`, where `levels` more arrays and objects may be opened. -/
def parseValue : ℕ → CJsonReader CJsonItem
  | 0 => parseValueWith none
  | levels + 1 => parseValueWith (some (parseValue levels))

/-! ### The entry points -/

/-- `skip_utf8_bom`. -/
def skipUtf8Bom (buffer : List UInt8) : List UInt8 :=
  if 4 < buffer.length ∧ [0xEF, 0xBB, 0xBF] <+: buffer then buffer.drop 3 else buffer

/-- `cJSON_ParseWithLengthOpts`. -/
def cJsonParseWithLengthOpts (value : List UInt8) (requireNullTerminated : Bool) :
    Option CJsonItem :=
  if value.length = 0 then none
  else
    (parseValue cJsonNestingLimit (bufferSkipWhitespace (skipUtf8Bom value))).bind fun x =>
      if requireNullTerminated then
        if (bufferSkipWhitespace x.2).head? = some 0 then some x.1 else none
      else some x.1

/-- `cJSON_ParseWithOpts`. The terminator is part of the buffer. -/
def cJsonParseWithOpts (value : CString) (requireNullTerminated : Bool) : Option CJsonItem :=
  cJsonParseWithLengthOpts (value.bytes ++ [0]) requireNullTerminated

/-- `cJSON_Parse`. -/
def cJsonParse (value : CString) : Option CJsonItem := cJsonParseWithOpts value Bool.false

/-! ### Items -/

/-- The list of children of an item. -/
def CJsonItem.child : CJsonItem → List (Option CString × CJsonItem)
  | .array child => child
  | .object child => child
  | _ => []

/-- `tolower` in the C locale. -/
def tolower (c : UInt8) : UInt8 :=
  if 'A'.toUInt8 ≤ c ∧ c ≤ 'Z'.toUInt8 then c + 32 else c

/-- `case_insensitive_strcmp` finds no difference. A name that is missing differs from any. -/
def caseInsensitiveEq (string1 : CString) : Option CString → Bool
  | none => Bool.false
  | some string2 => string1.bytes.map tolower = string2.bytes.map tolower

/-- `cJSON_GetObjectItem`: the first child of that name, whatever its case. -/
def cJsonGetObjectItem (object : CJsonItem) (name : CString) : Option CJsonItem :=
  (object.child.find? fun x => caseInsensitiveEq name x.1).map Prod.snd

/-- `cJSON_IsString`. -/
def cJsonIsString : CJsonItem → Bool
  | .string _ => Bool.true
  | _ => Bool.false

/-- `item->valuestring`. -/
def CJsonItem.valuestring : CJsonItem → CString
  | .string valuestring => valuestring
  | _ => default

/-- The library that `http_server.c` is linked with. -/
def cJson : CJson where
  Node := CJsonItem
  parse := cJsonParse
  getObjectItem := cJsonGetObjectItem
  isString := cJsonIsString
  valuestring := CJsonItem.valuestring

end PresenceDevice
