import BinanceElt.Lambda.Requests

/-!
# What a server reads from a query string

The inverses of the encoders of a request: `parse_qsl` of the query string, and
`json.loads` of a parameter that lists strings.  A query string on the wire is ASCII;
bytes that are not UTF-8 and unpaired surrogates are errors, since a text is a sequence
of Unicode scalar values.

## Main results

* `parseQsl_urlencode` — a form encoding is read back as the pairs it was made of, less
  those with a blank value when these are not kept.
* `loadsStrings_dumpsStrings` — a list of strings is read back from its JSON text.
-/

namespace BinanceElt

open Python (encodeUtf8 isUnreserved percentEscape quotePlus quotePlusByte urlencode)
open Python.Json (dumpsString dumpsStrings escapeChar hex4)

/-! ## `urllib.parse` -/

/-- `bs.decode("utf-8")`; `none` is `UnicodeDecodeError`. -/
def decodeUtf8 (bs : List UInt8) : Option String :=
  bs.toByteArray.utf8Decode?.map fun cs => String.ofList cs.toList

/-- The byte of an escape. -/
def escapedByte (c a b : Char) : Option UInt8 :=
  if c = '%' then do
    let x ← hexValue a
    let y ← hexValue b
    some (UInt8.ofNat (16 * x + y))
  else none

/-- `unquote_to_bytes`: a `%` that starts no escape stands for itself. -/
def unquoteToBytes : List Char → List UInt8
  | c :: a :: b :: rest =>
      match escapedByte c a b with
      | some byte => byte :: unquoteToBytes rest
      | none => String.utf8EncodeChar c ++ unquoteToBytes (a :: b :: rest)
  | cs => cs.flatMap String.utf8EncodeChar

/-- `s.replace("+", " ")`. -/
def plusToSpace (cs : List Char) : List Char := cs.map fun c => if c = '+' then ' ' else c

/-- `unquote(s.replace("+", " "))`. -/
def unquotePlus (cs : List Char) : Option String := decodeUtf8 (unquoteToBytes (plusToSpace cs))

/-- The name and the value of `name=value`; a text without `=`, and without
`keepBlankValues` one without a value, is passed over. -/
def nameValue (keepBlankValues : Bool) (cs : List Char) : Option (List Char × List Char) :=
  let name := cs.takeWhile (· != '=')
  let value := (cs.dropWhile (· != '=')).drop 1
  if cs = [] then none
  else if '=' ∈ cs then if value ≠ [] ∨ keepBlankValues then some (name, value) else none
  else if keepBlankValues then some (cs, []) else none

/-- `parse_qsl(qs, keep_blank_values)`: the pairs of a query string, in order,
with a name as often as it occurs.  `none` is a text that is no UTF-8. -/
def parseQsl (keepBlankValues : Bool) (qs : String) : Option (List (String × String)) :=
  ((qs.toList.splitOn '&').filterMap (nameValue keepBlankValues)).mapM fun nv => do
    let name ← unquotePlus nv.1
    let value ← unquotePlus nv.2
    some (name, value)

/-! ## `json.loads` -/

/-- `s.lstrip(" \t\n\r")`. -/
def skipWhitespace (cs : List Char) : List Char :=
  cs.dropWhile fun c => [' ', '\t', '\n', '\r'].contains c

/-- The code unit of `\uXXXX`. -/
def decodeUXXXX (a b c d : Char) : Option ℕ := do
  let x ← hexValue a
  let y ← hexValue b
  let z ← hexValue c
  let w ← hexValue d
  some (4096 * x + 256 * y + 16 * z + w)

/-- `BACKSLASH`. -/
def backslash (c : Char) : Option ℕ :=
  [('"', 34), ('\\', 92), ('/', 47), ('b', 8), ('f', 12), ('n', 10), ('r', 13),
    ('t', 9)].lookup c

/-- `scanstring` from behind the opening quote: the code units of the literal,
and what follows it.  Control characters must be escaped, and an escape that the
format does not have is an error. -/
def scanUnits : List Char → Option (List ℕ × List Char)
  | [] => none
  | [c] => if c = '"' then some ([], []) else none
  | c :: e :: cs =>
      if c = '"' then some ([], e :: cs)
      else if c = '\\' then
        if e = 'u' then
          match cs with
          | x :: y :: z :: w :: rest => do
              let unit ← decodeUXXXX x y z w
              let units ← scanUnits rest
              some (unit :: units.1, units.2)
          | _ => none
        else do
          let unit ← backslash e
          let units ← scanUnits cs
          some (unit :: units.1, units.2)
      else if c.toNat < 32 then none
      else do
        let units ← scanUnits (e :: cs)
        some (c.toNat :: units.1, units.2)

def isHighSurrogate (n : ℕ) : Bool := 55296 ≤ n && n ≤ 56319

def isLowSurrogate (n : ℕ) : Bool := 56320 ≤ n && n ≤ 57343

/-- The text of code units; surrogates come in pairs. -/
def ofUnits : List ℕ → Option (List Char)
  | [] => some []
  | [n] => if isHighSurrogate n || isLowSurrogate n then none else some [Char.ofNat n]
  | n :: m :: units =>
      if isHighSurrogate n then
        if isLowSurrogate m then
          (ofUnits units).map fun cs =>
            Char.ofNat (65536 + (n - 55296) * 1024 + (m - 56320)) :: cs
        else none
      else if isLowSurrogate n then none
      else (ofUnits (m :: units)).map fun cs => Char.ofNat n :: cs

/-- A string literal and what follows it. -/
def scanString : List Char → Option (String × List Char)
  | '"' :: cs => do
      let units ← scanUnits cs
      let text ← ofUnits units.1
      some (String.ofList text, units.2)
  | _ => none

/-- `JSONArray` of strings after its opening bracket and a first check for `]`,
with as many literals as `fuel`. -/
def scanStrings : ℕ → List Char → Option (List String × List Char)
  | 0, _ => none
  | fuel + 1, cs => do
      let item ← scanString cs
      match skipWhitespace item.2 with
      | ']' :: rest => some ([item.1], rest)
      | ',' :: rest => do
          let items ← scanStrings fuel (skipWhitespace rest)
          some (item.1 :: items.1, items.2)
      | _ => none

/-- `json.loads` of a text that is to list strings. -/
def loadsStrings (text : String) : Option (List String) :=
  match skipWhitespace text.toList with
  | '[' :: cs =>
      match skipWhitespace cs with
      | ']' :: rest => if skipWhitespace rest = [] then some [] else none
      | cs => do
          let items ← scanStrings cs.length cs
          if skipWhitespace items.2 = [] then some items.1 else none
  | _ => none

/-! ## A form encoding is read back -/

section Form

theorem decodeUtf8_encodeUtf8 (s : String) : decodeUtf8 (encodeUtf8 s) = some s := by
  have hbytes : (encodeUtf8 s).toByteArray = s.toList.utf8Encode := rfl
  rw [decodeUtf8, hbytes, List.utf8Decode?_utf8Encode, Option.map_some, List.toList_toArray,
    String.ofList_toList]

private theorem unquoteToBytes_cons {c : Char} (hc : c ≠ '%') (cs : List Char) :
    unquoteToBytes (c :: cs) = String.utf8EncodeChar c ++ unquoteToBytes cs := by
  match cs with
  | [] => rfl
  | [_] => rfl
  | _ :: _ :: _ => rw [unquoteToBytes, escapedByte, if_neg hc]

private theorem unquoteToBytes_percentEscape (b : UInt8) (cs : List Char) :
    unquoteToBytes (percentEscape b ++ cs) = b :: unquoteToBytes cs := by
  have hlt : b.toNat < 256 := b.toNat_lt
  have hbyte : escapedByte '%' (Python.hexDigit (b.toNat / 16)) (Python.hexDigit (b.toNat % 16)) =
      some b := by
    rw [escapedByte, if_pos rfl, hexValue_hexDigit (by omega), hexValue_hexDigit (by omega)]
    show some (UInt8.ofNat (16 * (b.toNat / 16) + b.toNat % 16)) = some b
    rw [Nat.div_add_mod, UInt8.ofNat_toNat]
  simp only [percentEscape, List.cons_append, List.nil_append]
  rw [unquoteToBytes, hbyte]

private theorem toNat_ofNat_byte (b : UInt8) : (Char.ofNat b.toNat).toNat = b.toNat := by
  have hall : ∀ n < 256, (Char.ofNat n).toNat = n := by decide +kernel
  exact hall b.toNat b.toNat_lt

/-- What `quote_plus` writes for a byte is read as this byte. -/
private theorem unquoteToBytes_quotePlusByte (b : UInt8) (cs : List Char) :
    unquoteToBytes (plusToSpace (quotePlusByte b) ++ cs) = b :: unquoteToBytes cs := by
  have hdigit : ∀ n < 16, Python.hexDigit n ≠ '+' := by decide
  have hlt : b.toNat < 256 := b.toNat_lt
  rw [quotePlusByte]
  split
  · next hspace =>
    rw [hspace]
    show unquoteToBytes (' ' :: cs) = 32 :: unquoteToBytes cs
    rw [unquoteToBytes_cons (by decide)]
    rfl
  · rw [Python.quoteByte]
    cases hb : isUnreserved (Char.ofNat b.toNat) with
    | true =>
        have hne : Char.ofNat b.toNat ≠ '%' ∧ Char.ofNat b.toNat ≠ '+' := by
          constructor <;> intro heq <;> rw [heq] at hb <;> exact absurd hb (by decide)
        have hascii := Python.toNat_lt_of_isUnreserved hb
        simp only [Bool.true_or, if_true, plusToSpace, List.map_cons, List.map_nil, if_neg hne.2,
          List.singleton_append]
        rw [unquoteToBytes_cons hne.1, Python.utf8EncodeChar_of_lt hascii, toNat_ofNat_byte,
          UInt8.ofNat_toNat, List.singleton_append]
    | false =>
        have hkept : plusToSpace (percentEscape b) = percentEscape b := by
          simp [plusToSpace, percentEscape, hdigit (b.toNat / 16) (by omega),
            hdigit (b.toNat % 16) (by omega)]
        simp only [Bool.false_or, String.toList_empty, List.contains_nil, Bool.false_eq_true,
          if_false, hkept]
        exact unquoteToBytes_percentEscape b cs

theorem unquoteToBytes_quotePlus (bs : List UInt8) :
    unquoteToBytes (plusToSpace (quotePlus bs).toList) = bs := by
  rw [Python.quotePlus_eq, String.toList_ofList]
  induction bs with
  | nil => rfl
  | cons b bs ih =>
      have hsplit : plusToSpace ((b :: bs).flatMap quotePlusByte) =
          plusToSpace (quotePlusByte b) ++ plusToSpace (bs.flatMap quotePlusByte) := by
        rw [List.flatMap_cons, plusToSpace, List.map_append]
        rfl
      rw [hsplit, unquoteToBytes_quotePlusByte, ih]

theorem unquotePlus_quotePlus (s : String) :
    unquotePlus (quotePlus (encodeUtf8 s)).toList = some s := by
  rw [unquotePlus, unquoteToBytes_quotePlus, decodeUtf8_encodeUtf8]

/-- The pair that `urlencode` writes. -/
private theorem nameValue_pair (keepBlankValues : Bool) {name value : List Char} (h : '=' ∉ name) :
    nameValue keepBlankValues (name ++ '=' :: value) =
      if value ≠ [] ∨ keepBlankValues then some (name, value) else none := by
  have hname : ∀ c ∈ name, (c != '=') = true := by
    intro c hc
    rw [bne_iff_ne]
    rintro rfl
    exact h hc
  have htake : (name ++ '=' :: value).takeWhile (· != '=') = name := by
    rw [List.takeWhile_append_of_pos hname, List.takeWhile_cons_of_neg (by simp), List.append_nil]
  have hdrop : (name ++ '=' :: value).dropWhile (· != '=') = '=' :: value := by
    rw [List.dropWhile_append_of_pos hname, List.dropWhile_cons_of_neg (by simp)]
  simp only [nameValue, htake, hdrop, List.drop_one, List.tail_cons]
  rw [if_neg (by simp), if_pos (by simp)]

/-- The form encoding of a text. -/
def formText (s : String) : List Char := (quotePlus (encodeUtf8 s)).toList

theorem formText_eq_nil_iff {s : String} : formText s = [] ↔ s = "" := by
  constructor
  · intro hnil
    have hlength := Python.length_le_length_quotePlus s
    rw [show (quotePlus (encodeUtf8 s)).toList = [] from hnil] at hlength
    exact String.toList_eq_nil_iff.mp (List.eq_nil_of_length_eq_zero (Nat.le_zero.mp hlength))
  · rintro rfl
    rfl

theorem toList_urlencode (query : List (String × String)) :
    (urlencode (query.map fun q => (encodeUtf8 q.1, encodeUtf8 q.2))).toList =
      ['&'].intercalate (query.map fun q => formText q.1 ++ '=' :: formText q.2) := by
  rw [urlencode, String.toList_intercalate, List.map_map, List.map_map]
  refine congrArg _ (List.map_congr_left fun q _ => ?_)
  simp only [Function.comp_apply, String.toList_append, List.append_assoc]
  rfl

private theorem filterMap_nameValue (keepBlankValues : Bool) (query : List (String × String)) :
    (query.map fun q => formText q.1 ++ '=' :: formText q.2).filterMap
        (nameValue keepBlankValues) =
      (query.filter fun q => q.2 ≠ "" ∨ keepBlankValues).map
        fun q => (formText q.1, formText q.2) := by
  induction query with
  | nil => rfl
  | cons q query ih =>
      have hname : '=' ∉ formText q.1 := Python.separator_notMem_quotePlus (.inr rfl) _
      rw [List.map_cons, List.filterMap_cons, nameValue_pair keepBlankValues hname, ih,
        List.filter_cons]
      by_cases hkept : q.2 ≠ "" ∨ keepBlankValues
      · rw [if_pos (hkept.imp_left (mt formText_eq_nil_iff.mp)), if_pos (by simpa using hkept)]
        rfl
      · rw [if_neg (fun h => hkept (h.imp_left (mt formText_eq_nil_iff.mpr))),
          if_neg (by simpa using hkept)]

/-- A form encoding is read back as the pairs it was made of, less those with a
blank value when these are not kept. -/
theorem parseQsl_urlencode (keepBlankValues : Bool) (query : List (String × String)) :
    parseQsl keepBlankValues (urlencode (query.map fun q => (encodeUtf8 q.1, encodeUtf8 q.2))) =
      some (query.filter fun q => q.2 ≠ "" ∨ keepBlankValues) := by
  have hdecoded : ∀ pairs : List (String × String),
      (pairs.map fun q => (formText q.1, formText q.2)).mapM (fun nv => do
        let name ← unquotePlus nv.1
        let value ← unquotePlus nv.2
        some (name, value)) = some pairs := by
    intro pairs
    induction pairs with
    | nil => rfl
    | cons q pairs ih =>
        rw [List.map_cons, List.mapM_cons, ih, formText, formText, unquotePlus_quotePlus,
          unquotePlus_quotePlus]
        rfl
  rw [parseQsl, toList_urlencode]
  cases query with
  | nil => rfl
  | cons q query =>
      rw [List.splitOn_intercalate '&' ?_ (by simp), filterMap_nameValue, hdecoded]
      intro cs hcs hmem
      obtain ⟨q, -, rfl⟩ := List.mem_map.mp hcs
      rcases List.mem_append.mp hmem with hmem | hmem
      · exact Python.separator_notMem_quotePlus (.inl rfl) _ hmem
      · rcases List.mem_cons.mp hmem with hmem | hmem
        · cases hmem
        · exact Python.separator_notMem_quotePlus (.inl rfl) _ hmem

end Form

/-! ## A list of strings is read back -/

section Loads

theorem hexValue_digitChar {n : ℕ} (h : n < 16) : hexValue (Nat.digitChar n) = some n := by
  have hall : ∀ n < 16, hexValue (Nat.digitChar n) = some n := by decide
  exact hall n h

theorem toList_hex4 {n : ℕ} (h : n < 65536) :
    (hex4 n).toList = [Nat.digitChar (n / 4096), Nat.digitChar (n / 256 % 16),
      Nat.digitChar (n / 16 % 16), Nat.digitChar (n % 16)] := by
  rw [hex4, String.toList_ofList]
  have hzero : '0' = Nat.digitChar 0 := rfl
  rcases Nat.lt_or_ge n 16 with h₁ | h₁
  · rw [Nat.toDigits_of_lt_base h₁, hzero, show n / 4096 = 0 by omega,
      show n / 256 % 16 = 0 by omega, show n / 16 % 16 = 0 by omega, show n % 16 = n by omega]
    rfl
  rw [Nat.toDigits_of_base_le (by decide) h₁]
  rcases Nat.lt_or_ge n 256 with h₂ | h₂
  · rw [Nat.toDigits_of_lt_base (by omega), hzero, show n / 4096 = 0 by omega,
      show n / 256 % 16 = 0 by omega, show n / 16 % 16 = n / 16 by omega]
    rfl
  rw [Nat.toDigits_of_base_le (by decide) (by omega), Nat.div_div_eq_div_mul]
  rcases Nat.lt_or_ge n 4096 with h₃ | h₃
  · rw [Nat.toDigits_of_lt_base (by omega), hzero, show n / 4096 = 0 by omega,
      show n / 256 % 16 = n / 256 by omega]
    rfl
  · rw [Nat.toDigits_of_base_le (by decide) (by omega), Nat.div_div_eq_div_mul,
      Nat.toDigits_of_lt_base (by omega)]
    rfl

/-- The UTF-16 code units of a character. -/
def codeUnits (c : Char) : List ℕ :=
  if c.toNat < 65536 then [c.toNat]
  else [55296 + (c.toNat - 65536) / 1024, 56320 + (c.toNat - 65536) % 1024]

theorem scanUnits_hex4 {n : ℕ} (h : n < 65536) (cs : List Char) :
    scanUnits ('\\' :: 'u' :: ((hex4 n).toList ++ cs)) =
      (scanUnits cs).map fun units => (n :: units.1, units.2) := by
  have hunit : decodeUXXXX (Nat.digitChar (n / 4096)) (Nat.digitChar (n / 256 % 16))
      (Nat.digitChar (n / 16 % 16)) (Nat.digitChar (n % 16)) = some n := by
    rw [decodeUXXXX, hexValue_digitChar (by omega), hexValue_digitChar (by omega),
      hexValue_digitChar (by omega), hexValue_digitChar (by omega)]
    show some (4096 * (n / 4096) + 256 * (n / 256 % 16) + 16 * (n / 16 % 16) + n % 16) = some n
    congr 1
    omega
  rw [toList_hex4 h]
  simp only [List.cons_append, List.nil_append]
  rw [scanUnits, if_neg (by decide), if_pos rfl, if_pos rfl]
  simp only [hunit]
  cases scanUnits cs <;> rfl

private theorem scanUnits_backslash {e : Char} {n : ℕ} (he : e ≠ 'u') (hn : backslash e = some n)
    (cs : List Char) :
    scanUnits ('\\' :: e :: cs) = (scanUnits cs).map fun units => (n :: units.1, units.2) := by
  rw [scanUnits.eq_def]
  simp only [if_true, if_neg he, hn, show ¬ '\\' = '"' by decide, if_false]
  cases scanUnits cs <;> rfl

private theorem scanUnits_quote (cs : List Char) : scanUnits ('"' :: cs) = some ([], cs) := by
  cases cs <;> rw [scanUnits.eq_def] <;> simp only [if_true]

private theorem scanUnits_cons {c : Char} (hquote : c ≠ '"') (hslash : c ≠ '\\')
    (hcontrol : ¬ c.toNat < 32) (cs : List Char) :
    scanUnits (c :: cs) = (scanUnits cs).map fun units => (c.toNat :: units.1, units.2) := by
  cases cs with
  | nil =>
      rw [scanUnits.eq_def]
      simp only [if_neg hquote]
      rfl
  | cons e cs =>
      rw [scanUnits.eq_def]
      simp only [if_neg hquote, if_neg hslash, if_neg hcontrol]
      cases scanUnits (e :: cs) <;> rfl

/-- A character of a literal is read as its code units. -/
theorem scanUnits_escapeChar (c : Char) (cs : List Char) :
    scanUnits ((escapeChar c).toList ++ cs) =
      (scanUnits cs).map fun units => (codeUnits c ++ units.1, units.2) := by
  have hchar : ∀ n, c.toNat = n → c = Char.ofNat n := by
    rintro n rfl
    exact (Char.ofNat_toNat c).symm
  have hvalid : c.toNat < 55296 ∨ 57343 < c.toNat ∧ c.toNat < 1114112 := c.valid
  rw [escapeChar]
  split
  · next hquoted =>
    rcases hquoted with h | h <;> rw [hchar _ h]
    · exact scanUnits_backslash (by decide) (by decide) cs
    · exact scanUnits_backslash (by decide) (by decide) cs
  split
  · next hquoted hprintable =>
    have hne : c ≠ '"' ∧ c ≠ '\\' := by
      constructor <;> rintro rfl <;> exact hquoted (by decide)
    rw [codeUnits, if_pos (by omega), Char.toString_eq_singleton,
      String.toList_singleton]
    exact scanUnits_cons hne.1 hne.2 (by omega) cs
  split
  · next h => rw [hchar _ h]; exact scanUnits_backslash (by decide) (by decide) cs
  split
  · next h => rw [hchar _ h]; exact scanUnits_backslash (by decide) (by decide) cs
  split
  · next h => rw [hchar _ h]; exact scanUnits_backslash (by decide) (by decide) cs
  split
  · next h => rw [hchar _ h]; exact scanUnits_backslash (by decide) (by decide) cs
  split
  · next h => rw [hchar _ h]; exact scanUnits_backslash (by decide) (by decide) cs
  split
  · next hbasic =>
    rw [codeUnits, if_pos hbasic, String.toList_append]
    exact scanUnits_hex4 hbasic cs
  · next hbasic =>
    rw [codeUnits, if_neg hbasic]
    simp only [String.toList_append, List.append_assoc]
    rw [show "\\u".toList = ['\\', 'u'] from rfl]
    simp only [List.cons_append, List.nil_append]
    rw [scanUnits_hex4 (by omega), scanUnits_hex4 (by omega)]
    cases scanUnits cs <;> rfl

/-- The code units of a character are read as this character. -/
theorem ofUnits_codeUnits (c : Char) (units : List ℕ) :
    ofUnits (codeUnits c ++ units) = (ofUnits units).map fun cs => c :: cs := by
  have hvalid : c.toNat < 55296 ∨ 57343 < c.toNat ∧ c.toNat < 1114112 := c.valid
  rw [codeUnits]
  split
  · next hbasic =>
    have hhigh : isHighSurrogate c.toNat = false := by
      simp only [isHighSurrogate, Bool.and_eq_false_iff, decide_eq_false_iff_not]
      omega
    have hlow : isLowSurrogate c.toNat = false := by
      simp only [isLowSurrogate, Bool.and_eq_false_iff, decide_eq_false_iff_not]
      omega
    cases units with
    | nil =>
        show ofUnits [c.toNat] = some [c]
        rw [ofUnits, hhigh, hlow, Char.ofNat_toNat]
        rfl
    | cons m units =>
        show ofUnits (c.toNat :: m :: units) = _
        rw [ofUnits, hhigh, hlow, Char.ofNat_toNat]
        rfl
  · next hastral =>
    have hhigh : isHighSurrogate (55296 + (c.toNat - 65536) / 1024) = true := by
      simp only [isHighSurrogate, Bool.and_eq_true, decide_eq_true_eq]
      omega
    have hlow : isLowSurrogate (56320 + (c.toNat - 65536) % 1024) = true := by
      simp only [isLowSurrogate, Bool.and_eq_true, decide_eq_true_eq]
      omega
    have hvalue : 65536 + (55296 + (c.toNat - 65536) / 1024 - 55296) * 1024 +
        (56320 + (c.toNat - 65536) % 1024 - 56320) = c.toNat := by
      omega
    simp only [List.cons_append, List.nil_append]
    rw [ofUnits, hhigh, hlow, hvalue, Char.ofNat_toNat]
    rfl

private theorem toList_dumpsString (s : String) :
    (dumpsString s).toList =
      '"' :: ((s.toList.flatMap fun c => (escapeChar c).toList) ++ ['"']) := by
  rw [dumpsString, String.toList_append, String.toList_append, String.toList_join]
  simp [List.flatMap, Function.comp_def]

theorem scanString_dumpsString (s : String) (cs : List Char) :
    scanString ((dumpsString s).toList ++ cs) = some (s, cs) := by
  have hunits : ∀ text : List Char,
      scanUnits ((text.flatMap fun c => (escapeChar c).toList) ++ '"' :: cs) =
        some (text.flatMap codeUnits, cs) := by
    intro text
    induction text with
    | nil => exact scanUnits_quote cs
    | cons c text ih =>
        rw [List.flatMap_cons, List.append_assoc, scanUnits_escapeChar, ih]
        rfl
  have htext : ∀ text : List Char, ofUnits (text.flatMap codeUnits) = some text := by
    intro text
    induction text with
    | nil => rfl
    | cons c text ih => rw [List.flatMap_cons, ofUnits_codeUnits, ih]; rfl
  rw [toList_dumpsString, List.cons_append, List.append_assoc, scanString]
  simp only [List.singleton_append]
  rw [hunits]
  simp only [Option.bind_eq_bind, Option.bind_some, htext, String.ofList_toList]

/-- A joined list of literals starts with a quote. -/
private theorem exists_intercalate_eq_cons (s : String) (items : List String) :
    ∃ cs, [','].intercalate ((s :: items).map fun s => (dumpsString s).toList) = '"' :: cs := by
  cases items with
  | nil =>
      rw [List.map_singleton, List.intercalate_singleton, toList_dumpsString]
      exact ⟨_, rfl⟩
  | cons s' items =>
      rw [List.map_cons, List.map_cons, List.intercalate_cons_cons, toList_dumpsString]
      exact ⟨_, rfl⟩

private theorem length_le_length_intercalate (items : List String) :
    items.length ≤ ([','].intercalate (items.map fun s => (dumpsString s).toList)).length := by
  induction items with
  | nil => exact Nat.zero_le _
  | cons s items ih =>
      cases items with
      | nil => simp [toList_dumpsString]
      | cons s' items =>
          simp only [List.map_cons, List.intercalate_cons_cons, List.length_append,
            List.length_cons] at ih ⊢
          omega

theorem scanStrings_dumpsString {items : List String} (hne : items ≠ []) {fuel : ℕ}
    (hfuel : items.length ≤ fuel) (cs : List Char) :
    scanStrings fuel ([','].intercalate (items.map fun s => (dumpsString s).toList) ++ ']' :: cs) =
      some (items, cs) := by
  induction items generalizing fuel with
  | nil => exact absurd rfl hne
  | cons s items ih =>
      obtain ⟨fuel, rfl⟩ := Nat.exists_eq_add_of_le' (Nat.le_trans (Nat.succ_pos _) hfuel)
      cases items with
      | nil =>
          simp only [List.map_cons, List.map_nil, List.intercalate_singleton]
          rw [scanStrings, scanString_dumpsString]
          rfl
      | cons s' items =>
          have hrest := ih (by simp) (Nat.le_of_succ_le_succ hfuel)
          obtain ⟨text, htext⟩ := exists_intercalate_eq_cons s' items
          rw [htext] at hrest
          have hjoined :
              [','].intercalate ((s :: s' :: items).map fun s => (dumpsString s).toList) =
                (dumpsString s).toList ++ ',' :: '"' :: text := by
            rw [← htext, List.map_cons, List.map_cons, List.intercalate_cons_cons,
              List.append_assoc]
            rfl
          rw [hjoined, List.append_assoc, scanStrings, scanString_dumpsString]
          show (scanStrings fuel ('"' :: text ++ ']' :: cs) >>=
            fun items => some (s :: items.1, items.2)) = some (s :: s' :: items, cs)
          rw [hrest]
          rfl

/-- A list of strings is read back from its JSON text. -/
theorem loadsStrings_dumpsStrings (items : List String) :
    loadsStrings (dumpsStrings items) = some items := by
  have hchars : (dumpsStrings items).toList =
      '[' :: ([','].intercalate (items.map fun s => (dumpsString s).toList) ++ [']']) := by
    rw [dumpsStrings, String.toList_append, String.toList_append, String.toList_intercalate,
      List.map_map]
    rfl
  rw [loadsStrings, hchars]
  cases items with
  | nil => rfl
  | cons s items =>
      obtain ⟨text, htext⟩ := exists_intercalate_eq_cons s items
      have hfuel : (s :: items).length ≤ ('"' :: text ++ [']']).length := by
        have hlength := length_le_length_intercalate (s :: items)
        rw [htext] at hlength
        rw [List.length_append]
        omega
      have hscan := scanStrings_dumpsString (List.cons_ne_nil s items) hfuel []
      rw [htext] at hscan ⊢
      show (scanStrings ('"' :: text ++ [']']).length ('"' :: text ++ [']']) >>= _) = _
      rw [hscan]
      rfl

end Loads

end BinanceElt
