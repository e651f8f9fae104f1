import Mathlib.Data.List.Basic

/-!
# Form encoding

What `urllib.parse` does to a text that goes into a query string.  The text is
encoded as UTF-8 and then byte by byte: letters, digits and `_.-~` stand for
themselves, every other byte is escaped as `%XX`, and `quote_plus` writes a space as
`+`.  A text is a sequence of Unicode scalar values, so that encoding it does not
fail.

## Main results

* `quotePlus_eq_self_iff` — a text is its own form encoding exactly when all its
  characters are unreserved.
* `escaped_urlencode` — form encoding escapes reserved bytes only, and leaves none.
-/

namespace Python

/-- `s.encode("utf-8")`. -/
def encodeUtf8 (s : String) : List UInt8 := s.toList.flatMap String.utf8EncodeChar

/-- `_ALWAYS_SAFE`: the characters that are never escaped. -/
def isUnreserved (c : Char) : Bool := c.isAlphanum || c == '_' || c == '.' || c == '-' || c == '~'

/-- A digit of `%X`. -/
def hexDigit (n : ℕ) : Char := (Nat.digitChar n).toUpper

/-- `"%{:02X}".format(b)`. -/
def percentEscape (b : UInt8) : List Char :=
  ['%', hexDigit (b.toNat / 16), hexDigit (b.toNat % 16)]

/-- What `quote` writes for a byte; `safe` is ASCII. -/
def quoteByte (safe : String) (b : UInt8) : List Char :=
  let c := Char.ofNat b.toNat
  if isUnreserved c || safe.toList.contains c then [c] else percentEscape b

def quoteFromBytes (safe : String) (bs : List UInt8) : String :=
  String.ofList (bs.flatMap (quoteByte safe))

def quote (safe s : String) : String := quoteFromBytes safe (encodeUtf8 s)

/-- `quote_plus` of bytes. -/
def quotePlus (bs : List UInt8) : String :=
  if bs.contains 32 then
    String.ofList ((quoteFromBytes " " bs).toList.map fun c => if c = ' ' then '+' else c)
  else quoteFromBytes "" bs

/-- `urlencode` of pairs of bytes. -/
def urlencode (query : List (List UInt8 × List UInt8)) : String :=
  "&".intercalate (query.map fun q => quotePlus q.1 ++ "=" ++ quotePlus q.2)

example : quotePlus (encodeUtf8 "a b&c=é%") = "a+b%26c%3D%C3%A9%25" := by decide

/-! ## ASCII -/

theorem isAlpha_iff {c : Char} :
    c.isAlpha = true ↔ ('A' ≤ c ∧ c ≤ 'Z') ∨ ('a' ≤ c ∧ c ≤ 'z') :=
  Bool.or_eq_true_iff.trans (or_congr decide_eq_true_iff
    (Bool.and_eq_true_iff.trans (and_congr decide_eq_true_iff decide_eq_true_iff)))

theorem toNat_lt_of_isUnreserved {c : Char} (h : isUnreserved c) : c.toNat < 128 := by
  simp only [isUnreserved, Char.isAlphanum, Char.isDigit, Bool.or_eq_true, isAlpha_iff,
    Bool.and_eq_true, decide_eq_true_eq, beq_iff_eq, Char.le_def, UInt32.le_iff_toNat_le,
    ge_iff_le] at h
  rcases h with ((((((h | h) | h) | rfl) | rfl) | rfl) | rfl)
  · exact Nat.lt_of_le_of_lt h.2 (by decide)
  · exact Nat.lt_of_le_of_lt h.2 (by decide)
  · exact Nat.lt_of_le_of_lt h.2 (by decide)
  all_goals decide

/-- An ASCII character is one byte. -/
theorem utf8EncodeChar_of_lt {c : Char} (h : c.toNat < 128) :
    String.utf8EncodeChar c = [UInt8.ofNat c.toNat] := by
  refine String.utf8EncodeChar_eq_singleton (Char.utf8Size_eq_one_iff.mpr ?_)
  rw [UInt32.le_iff_toNat_le]
  exact Nat.le_of_lt_succ h

theorem ofNat_toNat_ofNat {c : Char} (h : c.toNat < 128) :
    Char.ofNat (UInt8.ofNat c.toNat).toNat = c := by
  rw [UInt8.toNat_ofNat', Nat.mod_eq_of_lt (by omega), Char.ofNat_toNat]

/-- A text of ASCII characters that are each written as they are is not
changed. -/
theorem flatMap_utf8EncodeChar_eq_self {f : UInt8 → List Char} {cs : List Char}
    (h : ∀ c ∈ cs, c.toNat < 128 ∧ f (UInt8.ofNat c.toNat) = [c]) :
    (cs.flatMap String.utf8EncodeChar).flatMap f = cs := by
  induction cs with
  | nil => rfl
  | cons c cs ih =>
      obtain ⟨hlt, hc⟩ := h c List.mem_cons_self
      rw [List.flatMap_cons, utf8EncodeChar_of_lt hlt, List.singleton_append, List.flatMap_cons,
        hc, ih fun d hd => h d (List.mem_cons_of_mem _ hd), List.singleton_append]

theorem quote_eq_self {safe s : String}
    (h : ∀ c ∈ s.toList, c.toNat < 128 ∧ (isUnreserved c = true ∨ c ∈ safe.toList)) :
    quote safe s = s := by
  rw [quote, quoteFromBytes, encodeUtf8, flatMap_utf8EncodeChar_eq_self, String.ofList_toList]
  intro c hc
  obtain ⟨hlt, hsafe⟩ := h c hc
  refine ⟨hlt, ?_⟩
  rw [quoteByte, ofNat_toNat_ofNat hlt, if_pos (by simpa using hsafe)]

/-! ## `quote_plus` -/

/-- What `quote_plus` writes for a byte. -/
def quotePlusByte (b : UInt8) : List Char := if b = 32 then ['+'] else quoteByte "" b

/-- The three cases of a byte. -/
theorem quotePlusByte_cases (b : UInt8) :
    quotePlusByte b = ['+'] ∨
      (∃ c, isUnreserved c = true ∧ quotePlusByte b = [c]) ∨
      (isUnreserved (Char.ofNat b.toNat) = false ∧ quotePlusByte b = percentEscape b) := by
  rw [quotePlusByte]
  split
  · exact .inl rfl
  · rw [quoteByte]
    cases h : isUnreserved (Char.ofNat b.toNat) with
    | true => exact .inr (.inl ⟨_, h, rfl⟩)
    | false => exact .inr (.inr ⟨rfl, rfl⟩)

/-- An escape has no space, so that writing spaces as `+` changes only what a
space was quoted as. -/
private theorem map_plus_quoteByte (b : UInt8) :
    (quoteByte " " b).map (fun c => if c = ' ' then '+' else c) = quotePlusByte b := by
  have hall : ∀ n < 256, (quoteByte " " (UInt8.ofNat n)).map
      (fun c => if c = ' ' then '+' else c) = quotePlusByte (UInt8.ofNat n) := by decide +kernel
  have h := hall b.toNat b.toNat_lt
  rwa [UInt8.ofNat_toNat] at h

theorem quotePlus_eq (bs : List UInt8) :
    quotePlus bs = String.ofList (bs.flatMap quotePlusByte) := by
  rw [quotePlus]
  split
  · rw [quoteFromBytes, String.toList_ofList, List.map_flatMap]
    simp only [map_plus_quoteByte]
  · next hspace =>
    rw [quoteFromBytes]
    refine congrArg String.ofList (List.flatMap_congr fun b hb => ?_)
    have hne : b ≠ 32 := by
      rintro rfl
      exact hspace (List.contains_iff_mem.mpr hb)
    rw [quotePlusByte, if_neg hne]

theorem quotePlusByte_ne_nil (b : UInt8) : quotePlusByte b ≠ [] := by
  rcases quotePlusByte_cases b with h | ⟨c, -, h⟩ | ⟨-, h⟩ <;> simp [h, percentEscape]

theorem quotePlusByte_of_isUnreserved {c : Char} (h : isUnreserved c = true) :
    quotePlusByte (UInt8.ofNat c.toNat) = [c] := by
  have hlt := toNat_lt_of_isUnreserved h
  have hne : UInt8.ofNat c.toNat ≠ 32 := by
    intro heq
    have hspace : c = ' ' := by
      rw [← ofNat_toNat_ofNat hlt, heq]
      rfl
    rw [hspace] at h
    exact absurd h (by decide)
  rw [quotePlusByte, if_neg hne, quoteByte, ofNat_toNat_ofNat hlt, if_pos (by simp [h])]

/-- When every element is replaced by one or more, a list does not get
shorter. -/
theorem length_le_length_flatMap {α β : Type} {f : α → List β} (hf : ∀ a, f a ≠ []) (l : List α) :
    l.length ≤ (l.flatMap f).length := by
  induction l with
  | nil => exact Nat.le_refl _
  | cons a l ih =>
      have ha := List.length_pos_iff.mpr (hf a)
      rw [List.flatMap_cons, List.length_append, List.length_cons]
      omega

/-- When it stays the same, no element has changed. -/
theorem eq_singleton_of_flatMap_eq {α : Type} {f : α → List α} (hf : ∀ a, f a ≠ []) {l : List α}
    (h : l.flatMap f = l) : ∀ a ∈ l, f a = [a] := by
  induction l with
  | nil => simp
  | cons a l ih =>
      have h : f a ++ l.flatMap f = [a] ++ l := h
      have hlength := congrArg List.length h
      rw [List.length_append, List.length_append, List.length_singleton] at hlength
      have ha := List.length_pos_iff.mpr (hf a)
      have hl := length_le_length_flatMap hf l
      have hone : (f a).length = [a].length := by
        rw [List.length_singleton]
        omega
      obtain ⟨hhead, htail⟩ := List.append_inj h hone
      intro b hb
      rcases List.mem_cons.mp hb with rfl | hb
      · exact hhead
      · exact ih htail b hb

/-- What `quote_plus` writes for a character. -/
def quotePlusChar (c : Char) : List Char := (String.utf8EncodeChar c).flatMap quotePlusByte

theorem quotePlusChar_ne_nil (c : Char) : quotePlusChar c ≠ [] := by
  intro hnil
  obtain ⟨b, hb⟩ := List.exists_mem_of_ne_nil _ (String.utf8EncodeChar_ne_nil (c := c))
  exact quotePlusByte_ne_nil b (List.flatMap_eq_nil_iff.mp hnil b hb)

theorem toList_quotePlus_encodeUtf8 (s : String) :
    (quotePlus (encodeUtf8 s)).toList = s.toList.flatMap quotePlusChar := by
  rw [quotePlus_eq, encodeUtf8, String.toList_ofList, List.flatMap_assoc]
  rfl

/-- A form encoding is no shorter than the text. -/
theorem length_le_length_quotePlus (s : String) :
    s.toList.length ≤ (quotePlus (encodeUtf8 s)).toList.length := by
  rw [toList_quotePlus_encodeUtf8]
  exact length_le_length_flatMap quotePlusChar_ne_nil _

/-- The characters that are written as they are. -/
theorem quotePlusChar_eq_singleton_iff {c : Char} :
    quotePlusChar c = [c] ↔ isUnreserved c = true := by
  constructor
  · intro hkept
    obtain ⟨b, bs, hbytes⟩ := List.exists_cons_of_ne_nil (String.utf8EncodeChar_ne_nil (c := c))
    have hfirst := hkept
    rw [quotePlusChar, hbytes, List.flatMap_cons] at hfirst
    rcases quotePlusByte_cases b with hb | ⟨d, hd, hb⟩ | ⟨-, hb⟩
    · -- what is written as `+` is the space, and not `+` itself
      rw [hb, List.singleton_append, List.cons.injEq] at hfirst
      rw [← hfirst.1] at hkept
      exact absurd hkept (by decide)
    · rw [hb, List.singleton_append, List.cons.injEq] at hfirst
      rw [← hfirst.1]
      exact hd
    · rw [hb, percentEscape] at hfirst
      simp at hfirst
  · intro hc
    rw [quotePlusChar, utf8EncodeChar_of_lt (toNat_lt_of_isUnreserved hc), List.flatMap_singleton,
      quotePlusByte_of_isUnreserved hc]

/-- A text is its own form encoding exactly when all its characters are
unreserved. -/
theorem quotePlus_eq_self_iff {s : String} :
    quotePlus (encodeUtf8 s) = s ↔ ∀ c ∈ s.toList, isUnreserved c = true := by
  rw [← String.toList_inj, toList_quotePlus_encodeUtf8]
  simp only [← quotePlusChar_eq_singleton_iff]
  constructor
  · exact eq_singleton_of_flatMap_eq quotePlusChar_ne_nil
  · intro hall
    rw [List.flatMap_congr hall, List.flatMap_singleton']

/-! ## Joined texts -/

section Joined

variable {ι : Type} {sep : List Char} {l : List ι} {f g : ι → List Char}

private theorem length_intercalate_le (h : ∀ i ∈ l, (f i).length ≤ (g i).length) :
    (sep.intercalate (l.map f)).length ≤ (sep.intercalate (l.map g)).length := by
  induction l with
  | nil => exact Nat.le_refl _
  | cons i l ih =>
      have hi := h i List.mem_cons_self
      have hl := ih fun j hj => h j (List.mem_cons_of_mem _ hj)
      cases l with
      | nil => simpa using hi
      | cons j l =>
          simp only [List.map_cons, List.intercalate_cons_cons, List.length_append] at hl ⊢
          omega

/-- Texts that are joined to the same are the same, when each of the one list is
no longer than its counterpart. -/
theorem intercalate_eq_iff (h : ∀ i ∈ l, (f i).length ≤ (g i).length) :
    sep.intercalate (l.map f) = sep.intercalate (l.map g) ↔ ∀ i ∈ l, f i = g i := by
  constructor
  · intro heq
    induction l with
    | nil => simp
    | cons i l ih =>
        have hi := h i List.mem_cons_self
        have hl : ∀ j ∈ l, (f j).length ≤ (g j).length := fun j hj =>
          h j (List.mem_cons_of_mem _ hj)
        cases l with
        | nil => simpa using heq
        | cons j l =>
            have hrest : (sep.intercalate ((j :: l).map f)).length ≤
                (sep.intercalate ((j :: l).map g)).length := length_intercalate_le hl
            simp only [List.map_cons, List.intercalate_cons_cons, List.append_assoc] at heq hrest ih
            have hlength := congrArg List.length heq
            simp only [List.length_append] at hlength
            obtain ⟨hhead, htail⟩ := List.append_inj heq (by omega)
            intro k hk
            rcases List.mem_cons.mp hk with rfl | hk
            · exact hhead
            · exact ih hl (List.append_cancel_left htail) k hk
  · intro hall
    rw [List.map_congr_left hall]

end Joined

/-! ## Escaped texts -/

/-- A text of characters in `P` and escapes, all of them of reserved bytes. -/
inductive Escaped (P : Char → Prop) : List Char → Prop
  | nil : Escaped P []
  | keep {c : Char} {cs : List Char} : c ≠ '%' → P c → Escaped P cs → Escaped P (c :: cs)
  | escape {b : UInt8} {cs : List Char} : isUnreserved (Char.ofNat b.toNat) = false →
      Escaped P cs → Escaped P (percentEscape b ++ cs)

section Escaped

variable {P Q : Char → Prop} {cs cs' : List Char}

theorem Escaped.mono (hPQ : ∀ c, P c → Q c) (h : Escaped P cs) : Escaped Q cs := by
  induction h with
  | nil => exact .nil
  | keep hc hP _ ih => exact .keep hc (hPQ _ hP) ih
  | escape hb _ ih => exact .escape hb ih

theorem Escaped.append (h : Escaped P cs) (h' : Escaped P cs') : Escaped P (cs ++ cs') := by
  induction h with
  | nil => exact h'
  | keep hc hP _ ih => exact .keep hc hP ih
  | escape hb _ ih =>
      rw [List.append_assoc]
      exact .escape hb ih

theorem escaped_of_forall (h : ∀ c ∈ cs, c ≠ '%' ∧ P c) : Escaped P cs := by
  induction cs with
  | nil => exact .nil
  | cons c cs ih =>
      obtain ⟨hc, hP⟩ := h c List.mem_cons_self
      exact .keep hc hP (ih fun d hd => h d (List.mem_cons_of_mem _ hd))

theorem Escaped.intercalate {sep : List Char} (hsep : Escaped P sep) {l : List (List Char)}
    (h : ∀ cs ∈ l, Escaped P cs) : Escaped P (sep.intercalate l) := by
  induction l with
  | nil => exact .nil
  | cons cs l ih =>
      have hcs := h cs List.mem_cons_self
      have hl := ih fun cs' hcs' => h cs' (List.mem_cons_of_mem _ hcs')
      cases l with
      | nil =>
          rw [List.intercalate_singleton]
          exact hcs
      | cons cs' l =>
          rw [List.intercalate_cons_cons]
          exact (hcs.append hsep).append hl

/-- The digits of an escape are unreserved. -/
theorem isUnreserved_hexDigit {n : ℕ} (h : n < 16) : isUnreserved (hexDigit n) = true := by
  have hall : ∀ n < 16, isUnreserved (hexDigit n) = true := by decide
  exact hall n h

theorem Escaped.mem (h : Escaped P cs) {c : Char} (hc : c ∈ cs) :
    P c ∨ c = '%' ∨ isUnreserved c = true := by
  induction h with
  | nil => cases hc
  | keep _ hP _ ih =>
      rcases List.mem_cons.mp hc with rfl | hc
      · exact .inl hP
      · exact ih hc
  | @escape b _ _ _ ih =>
      have hb : b.toNat < 256 := b.toNat_lt
      rcases List.mem_append.mp hc with hc | hc
      · simp only [percentEscape, List.mem_cons, List.not_mem_nil, or_false] at hc
        rcases hc with rfl | rfl | rfl
        · exact .inr (.inl rfl)
        · exact .inr (.inr (isUnreserved_hexDigit (by omega)))
        · exact .inr (.inr (isUnreserved_hexDigit (by omega)))
      · exact ih hc

end Escaped

/-- The characters a form encoder keeps or puts in. -/
def IsFormChar (c : Char) : Prop := isUnreserved c = true ∨ c = '+'

theorem escaped_quotePlus (bs : List UInt8) : Escaped IsFormChar (quotePlus bs).toList := by
  rw [quotePlus_eq, String.toList_ofList]
  induction bs with
  | nil => exact .nil
  | cons b bs ih =>
      rw [List.flatMap_cons]
      rcases quotePlusByte_cases b with h | ⟨c, hc, h⟩ | ⟨hb, h⟩
      · rw [h]
        exact .keep (by decide) (.inr rfl) ih
      · rw [h]
        refine .keep ?_ (.inl hc) ih
        rintro rfl
        exact absurd hc (by decide)
      · rw [h]
        exact .escape hb ih

/-- Form encoding writes neither of its separators. -/
theorem separator_notMem_quotePlus {c : Char} (hc : c = '&' ∨ c = '=') (bs : List UInt8) :
    c ∉ (quotePlus bs).toList := by
  intro hmem
  rcases (escaped_quotePlus bs).mem hmem with (h | h) | h | h <;>
    rcases hc with rfl | rfl <;> exact absurd h (by decide)

/-- The characters of a form-encoded query. -/
def IsQueryChar (c : Char) : Prop := isUnreserved c = true ∨ c = '+' ∨ c = '=' ∨ c = '&'

theorem escaped_urlencode (query : List (List UInt8 × List UInt8)) :
    Escaped IsQueryChar (urlencode query).toList := by
  have hpart : ∀ bs, Escaped IsQueryChar (quotePlus bs).toList := fun bs =>
    (escaped_quotePlus bs).mono fun c hc => hc.imp_right .inl
  have hsep : ∀ c ∈ ['=', '&'], Escaped IsQueryChar [c] := by
    intro c hc
    refine escaped_of_forall fun d hd => ?_
    rw [List.mem_singleton.mp hd]
    rcases List.mem_pair.mp hc with rfl | rfl
    · exact ⟨by decide, .inr (.inr (.inl rfl))⟩
    · exact ⟨by decide, .inr (.inr (.inr rfl))⟩
  rw [urlencode, String.toList_intercalate]
  refine (hsep '&' (by simp)).intercalate fun cs hcs => ?_
  obtain ⟨pair, hpair, rfl⟩ := List.mem_map.mp hcs
  obtain ⟨q, -, rfl⟩ := List.mem_map.mp hpair
  rw [String.toList_append, String.toList_append]
  exact ((hpart _).append (hsep '=' (by simp))).append (hpart _)

end Python
