import Prapancha.Json.Parse

/-!
# Parsing what was printed

`parseValue_print`: the parser reads a printed storable value back, up to the kinds of its
integers, and leaves the text after it.  `fits_parseValue`: what the parser returns has UTF-8
strings, distinct keys and canonical integer kinds.  Together they make the `Engine` `compact`.
-/

namespace Prapancha.Json

open Octet

/-! ## Numbers -/

theorem isDigit_of_mem_decimal {n : Nat} {b : UInt8} (h : b ∈ decimal n) : isDigit b = true := by
  obtain ⟨h1, h2⟩ := decimal_digits h
  simp only [isDigit, Bool.and_eq_true, decide_eq_true_eq]
  exact ⟨UInt8.le_iff_toNat_le.2 h1, UInt8.le_iff_toNat_le.2 h2⟩

theorem digitsValue_decimal (n : Nat) : digitsValue (decimal n) = n := by
  have hback : (decimal n).map (fun b => Char.ofNat b.toNat) = Nat.toDigits 10 n := by
    rw [decimal, List.map_map]
    refine (List.map_congr_left fun c hc => ?_).trans (List.map_id _)
    have hdigit := Nat.isDigit_of_mem_toDigits (by omega) (by omega) hc
    simp [toNat_toUInt8_of_isDigit hdigit]
  rw [digitsValue, hback, Nat.ofDigitChars_toDigits (by omega) (by omega)]

theorem decimal_ne_nil (n : Nat) : decimal n ≠ [] := by
  rw [decimal, Ne, List.map_eq_nil_iff]
  exact Nat.toDigits_ne_nil

theorem not_digit_of_endsNumber {b : UInt8} {s : Bytes} (h : endsNumber (b :: s) = true) :
    isDigit b = false := by
  simp only [endsNumber, Bool.and_eq_true, Bool.not_eq_true'] at h
  exact h.1.1.1

theorem takeWhile_decimal (n : Nat) {rest : Bytes} (h : endsNumber rest = true) :
    (decimal n ++ rest).takeWhile isDigit = decimal n := by
  rw [List.takeWhile_append_of_pos fun b hb => isDigit_of_mem_decimal hb]
  cases rest with
  | nil => simp
  | cons b s => simp [not_digit_of_endsNumber h]

theorem dropWhile_decimal (n : Nat) {rest : Bytes} (h : endsNumber rest = true) :
    (decimal n ++ rest).dropWhile isDigit = rest := by
  rw [List.dropWhile_append_of_pos fun b hb => isDigit_of_mem_decimal hb]
  cases rest with
  | nil => simp
  | cons b s => simp [not_digit_of_endsNumber h]

theorem parseNat_decimal (n : Nat) {rest : Bytes} (h : endsNumber rest = true) :
    parseNat (decimal n ++ rest) = some (n, rest) := by
  simp [parseNat, takeWhile_decimal n h, dropWhile_decimal n h, digitsValue_decimal]

theorem decimal_cons (n : Nat) : ∃ b s, decimal n = b :: s ∧ isDigit b = true := by
  cases h : decimal n with
  | nil => exact absurd h (decimal_ne_nil n)
  | cons b s => exact ⟨b, s, rfl, isDigit_of_mem_decimal (n := n) (by simp [h])⟩

theorem parseInt_printInt (i : Int) {rest : Bytes} (h : endsNumber rest = true) :
    parseInt (printInt i ++ rest) = some (i, rest) := by
  cases i with
  | ofNat n =>
    obtain ⟨b, s, hb, hd⟩ := decimal_cons n
    have hne : b ≠ minus := by rintro rfl; exact absurd hd (by decide)
    have hparse := parseNat_decimal n h
    simp only [printInt, hb, List.cons_append] at hparse ⊢
    simp [parseInt, hne, hparse]
  | negSucc n =>
    have hparse := parseNat_decimal (n + 1) h
    simp only [printInt, List.cons_append, parseInt, if_true, hparse, Option.map_some]
    rfl

theorem parseNumber_printInt {i : Int} {v : Value} (hv : integerValue i = some v) {rest : Bytes}
    (h : endsNumber rest = true) : parseNumber (printInt i ++ rest) = some (v, rest) := by
  simp [parseNumber, parseInt_printInt i h, h, hv]

theorem integerValue_int64 (i : Int64) : integerValue i.toInt = some (.int64 i) := by
  rw [integerValue, if_pos ⟨i.le_toInt, i.toInt_lt⟩, Int64.ofInt_toInt]

theorem integerValue_uint64 (u : UInt64) :
    integerValue (u.toNat : Int) = some (Value.ofParsedUInt64 u) := by
  have hlt : u.toNat < 2 ^ 64 := u.toNat_lt
  by_cases h : u.toNat < 2 ^ 63
  · rw [Value.ofParsedUInt64_of_lt h, integerValue, if_pos (by omega), Int64.ofInt_eq_ofNat]
    conv_rhs => rw [← UInt64.ofNat_toNat (x := u), UInt64.toInt64_ofNat']
  · rw [Value.ofParsedUInt64_of_le (Nat.not_lt.1 h), integerValue, if_neg (by omega),
      if_pos (by omega), Int.toNat_natCast, UInt64.ofNat_toNat]

/-! ## Strings -/

theorem unescapeUnit_control : ∀ n < 0x20,
    unescapeUnit 0x30 0x30 (hexDigit (n / 16)) (hexDigit (n % 16)) = some [UInt8.ofNat n] := by
  decide

/-- Whatever form an octet is escaped to, the parser reads that octet. -/
theorem parseChars_escape (b : UInt8) (s : Bytes) :
    parseChars (escape b ++ s) = prepend [b] (parseChars s) := by
  unfold escape
  split
  · next h => subst h; rw [parseChars.eq_def]; rfl
  split
  · next h => subst h; rw [parseChars.eq_def]; rfl
  split
  · next h => subst h; rw [parseChars.eq_def]; rfl
  split
  · next h => subst h; rw [parseChars.eq_def]; rfl
  split
  · next h => subst h; rw [parseChars.eq_def]; rfl
  split
  · next h => subst h; rw [parseChars.eq_def]; rfl
  split
  · next h => subst h; rw [parseChars.eq_def]; rfl
  split
  · next h =>
    have hu := unescapeUnit_control b.toNat (UInt8.lt_iff_toNat_lt.1 h)
    rw [UInt8.ofNat_toNat] at hu
    rw [parseChars.eq_def]
    simp [hu, show backslash ≠ quote by decide]
  · next h1 h2 _ _ _ _ _ h =>
    rw [parseChars.eq_def]
    simp [h1, h2, h]

theorem parseChars_printed (s rest : Bytes) :
    parseChars (s.flatMap escape ++ quote :: rest) = some (s, rest) := by
  induction s with
  | nil => rw [List.flatMap_nil, List.nil_append, parseChars.eq_def]; rfl
  | cons b s ih =>
    rw [List.flatMap_cons, List.append_assoc, parseChars_escape, ih]
    rfl

theorem parseString_printString {s : Bytes} (h : Utf8 s) (rest : Bytes) :
    parseString (printString s ++ rest) = some (s, rest) := by
  simp [parseString, printString, parseChars_printed, h]

/-! ## Lists of items -/

theorem skipBlanks_cons {b : UInt8} (h : isBlank b = false) (s : Bytes) :
    skipBlanks (b :: s) = b :: s := by
  simp [skipBlanks, h]

section Items

variable {α β : Type} {p : Parser β} {print : α → Bytes} {f : α → β} {close : UInt8}

/-- Items printed with a comma before each, then the closing octet. -/
def printTail (print : α → Bytes) (close : UInt8) (l : List α) : Bytes :=
  l.flatMap (fun a => comma :: print a) ++ [close]

theorem endsNumber_printTail (hclose : endsNumber [close] = true) (l : List α) (rest : Bytes) :
    endsNumber (printTail print close l ++ rest) = true := by
  cases l with
  | nil => simpa [printTail, endsNumber] using hclose
  | cons a l => rfl

theorem length_lt_printTail (print : α → Bytes) (close : UInt8) (l : List α) :
    l.length < (printTail print close l).length := by
  induction l with
  | nil => simp [printTail]
  | cons a l ih =>
    simp only [printTail, List.flatMap_cons, List.cons_append, List.length_cons,
      List.append_assoc, List.length_append] at ih ⊢
    omega

theorem sepBy_printed (hclose : endsNumber [close] = true) (hblank : isBlank close = false)
    (hcomma : comma ≠ close) (l : List α) :
    ∀ (a : α) (fuel : Nat), l.length < fuel →
      (∀ a' ∈ a :: l, ∀ rest, endsNumber rest = true →
        p (print a' ++ rest) = some (f a', rest)) →
      ∀ rest, sepBy p close fuel (print a ++ (printTail print close l ++ rest)) =
        some (f a :: l.map f, rest) := by
  induction l with
  | nil =>
    intro a fuel hfuel hp rest
    obtain ⟨fuel, rfl⟩ := Nat.exists_eq_succ_of_ne_zero (Nat.ne_of_gt hfuel)
    rw [sepBy, hp a List.mem_cons_self _ (endsNumber_printTail hclose [] rest)]
    simp [printTail, skipBlanks_cons hblank]
  | cons a' l ih =>
    intro a fuel hfuel hp rest
    obtain ⟨fuel, rfl⟩ := Nat.exists_eq_succ_of_ne_zero (Nat.ne_of_gt (Nat.zero_lt_of_lt hfuel))
    have hrest := ih a' fuel (by simpa using hfuel)
      (fun b hb => hp b (List.mem_cons_of_mem _ hb)) rest
    rw [sepBy, hp a List.mem_cons_self _ (endsNumber_printTail hclose (a' :: l) rest)]
    have htail : printTail print close (a' :: l) ++ rest =
        comma :: (print a' ++ (printTail print close l ++ rest)) := by
      simp [printTail]
    simp [htail, skipBlanks_cons (b := comma) rfl, hcomma, hrest]

theorem sepBy_mem {fuel : Nat} : ∀ {s r : Bytes} {l : List β}, sepBy p close fuel s = some (l, r) →
    ∀ a ∈ l, ∃ s' r', p s' = some (a, r') := by
  induction fuel with
  | zero => intro s r l h; cases h
  | succ fuel ih =>
    intro s r l h
    rw [sepBy] at h
    obtain ⟨⟨a, s'⟩, ha, h⟩ := Option.bind_eq_some_iff.1 h
    simp only at h
    split at h
    · cases h
    · split at h
      · cases h
        intro b hb
        rw [List.mem_singleton.1 hb]
        exact ⟨s, s', ha⟩
      · split at h
        · obtain ⟨⟨as, r'⟩, has, h⟩ := Option.bind_eq_some_iff.1 h
          cases h
          intro b hb
          rcases List.mem_cons.1 hb with rfl | hb
          · exact ⟨s, s', ha⟩
          · exact ih has b hb
        · cases h

theorem listOf_mem {s r : Bytes} {l : List β} (h : listOf p close s = some (l, r)) :
    ∀ a ∈ l, ∃ s' r', p s' = some (a, r') := by
  rw [listOf] at h
  split at h
  · cases h
  · split at h
    · cases h; intro a ha; cases ha
    · exact sepBy_mem h

end Items

/-! ## Values -/

theorem printElements_eq (es : List Value) :
    printElements es = printTail print closeBracket es := by
  induction es with
  | nil => rfl
  | cons v es ih => simp [printElements, ih, printTail]

def printMember (m : Bytes × Value) : Bytes := printString m.1 ++ colon :: print m.2

theorem printMembers_eq (ms : List (Bytes × Value)) :
    printMembers ms = printTail printMember closeBrace ms := by
  induction ms with
  | nil => rfl
  | cons m ms ih => obtain ⟨k, v⟩ := m; simp [printMembers, ih, printTail, printMember]

theorem printInt_head (i : Int) :
    ∃ b s, printInt i = b :: s ∧ ∀ c : UInt8, isDigit c = false → c ≠ minus → b ≠ c := by
  have hhead : ∃ b s, printInt i = b :: s ∧ (isDigit b = true ∨ b = minus) := by
    cases i with
    | ofNat n => obtain ⟨b, s, hb, hd⟩ := decimal_cons n; exact ⟨b, s, hb, .inl hd⟩
    | negSucc n => exact ⟨minus, _, rfl, .inr rfl⟩
  obtain ⟨b, s, hb, hd⟩ := hhead
  refine ⟨b, s, hb, ?_⟩
  rintro c hc1 hc2 rfl
  rcases hd with hd | hd
  · rw [hc1] at hd; cases hd
  · exact hc2 hd

theorem not_blank_of_ne {b : UInt8} (h : ∀ c : UInt8, isDigit c = false → c ≠ minus → b ≠ c) :
    isBlank b = false := by
  simp [isBlank, h 0x20 (by decide) (by decide), h 0x09 (by decide) (by decide),
    h 0x0A (by decide) (by decide), h 0x0D (by decide) (by decide)]

theorem printInt_cons (i : Int) :
    ∃ b s, printInt i = b :: s ∧ isBlank b = false ∧ b ≠ closeBracket := by
  obtain ⟨b, s, hb, hne⟩ := printInt_head i
  exact ⟨b, s, hb, not_blank_of_ne hne, hne _ (by decide) (by decide)⟩

/-- The first octet of a printed scalar is not blank, and says how to read on. -/
theorem parseScalar_print {v : Value} (hc : v.isContainer = false) (h : v.StorableScalar)
    {rest : Bytes} (hrest : endsNumber rest = true) :
    parseScalar (print v ++ rest) = some (v.reread, rest) ∧
      ∃ b s, print v = b :: s ∧ isBlank b = false ∧ b ≠ openBracket ∧ b ≠ openBrace := by
  have number : ∀ (i : Int) (w : Value), integerValue i = some w → (print v = printInt i) →
      v.reread = w → parseScalar (print v ++ rest) = some (v.reread, rest) ∧
        ∃ b s, print v = b :: s ∧ isBlank b = false ∧ b ≠ openBracket ∧ b ≠ openBrace := by
    intro i w hi hpr hw
    obtain ⟨b, s, hb, hne⟩ := printInt_head i
    refine ⟨?_, b, s, hpr.trans hb, not_blank_of_ne hne, hne _ (by decide) (by decide),
      hne _ (by decide) (by decide)⟩
    rw [hpr, hw, ← parseNumber_printInt hi hrest, parseScalar, hb]
    simp [hne quote (by decide) (by decide), hne 0x6E (by decide) (by decide),
      hne 0x74 (by decide) (by decide), hne 0x66 (by decide) (by decide)]
  cases v with
  | null => exact ⟨rfl, _, _, rfl, by decide, by decide, by decide⟩
  | bool b => cases b <;> exact ⟨rfl, _, _, rfl, by decide, by decide, by decide⟩
  | int64 i => exact number _ _ (integerValue_int64 i) rfl rfl
  | uint64 u => exact number _ _ (integerValue_uint64 u) rfl rfl
  | double bits => exact h.elim
  | string s =>
    refine ⟨?_, quote, _, rfl, by decide, by decide, by decide⟩
    have hs : parseString (printString s ++ rest) = some (s, rest) := parseString_printString h rest
    rw [print, parseScalar, if_pos (by rfl), hs]
    rfl
  | array es => cases hc
  | object ms => cases hc

theorem foldl_set {ms : List (Bytes × Value)} :
    ∀ {o : Object}, (Object.keys (o ++ ms)).Nodup →
      ms.foldl (fun o m => Object.set o m.1 m.2) o = o ++ ms := by
  induction ms with
  | nil => intro o _; simp
  | cons m ms ih =>
    intro o h
    obtain ⟨k, v⟩ := m
    have hk : k ∉ o.keys := by
      intro hk
      rw [Object.keys, List.map_append, List.map_cons] at h
      exact (List.nodup_append.1 h).2.2 k hk k List.mem_cons_self rfl
    rw [List.foldl_cons, Object.set_of_not_mem hk, ih (by simpa using h)]
    simp

theorem listOf_printed {α β : Type} {p : Parser β} (f : α → β) (print : α → Bytes) (close : UInt8)
    (hclose : endsNumber [close] = true) (hblank : isBlank close = false) (hcomma : comma ≠ close)
    {a : α} {l : List α}
    (hp : ∀ a' ∈ a :: l, ∀ rest, endsNumber rest = true → p (print a' ++ rest) = some (f a', rest))
    (hhead : ∃ b s, print a = b :: s ∧ isBlank b = false ∧ b ≠ close) (rest : Bytes) :
    listOf p close (print a ++ (printTail print close l ++ rest)) =
      some (f a :: l.map f, rest) := by
  obtain ⟨b, s, hb, hbl, hbc⟩ := hhead
  have hlen : l.length < (print a ++ (printTail print close l ++ rest)).length := by
    have := length_lt_printTail print close l
    simp only [List.length_append]
    omega
  have hsep := sepBy_printed hclose hblank hcomma l a _ hlen hp rest
  rw [hb, List.cons_append] at hsep ⊢
  simp only [listOf, skipBlanks_cons hbl, if_neg hbc, hsep]

theorem print_cons {d : Nat} {v : Value} (h : v.Fits Value.StorableScalar d) :
    ∃ b s, print v = b :: s ∧ isBlank b = false ∧ b ≠ closeBracket := by
  refine Value.Fits.induction (P := fun _ v => ∃ b s, print v = b :: s ∧ isBlank b = false ∧
    b ≠ closeBracket) ?_ ?_ ?_ h
  · intro _ v hc hs
    cases v with
    | null => exact ⟨_, _, rfl, by decide, by decide⟩
    | bool b => cases b <;> exact ⟨_, _, rfl, by decide, by decide⟩
    | int64 i => exact printInt_cons i.toInt
    | uint64 u => exact printInt_cons u.toNat
    | double _ => exact hs.elim
    | string s => exact ⟨_, _, rfl, by decide, by decide⟩
    | array _ => cases hc
    | object _ => cases hc
  · intro _ es _
    cases es <;> exact ⟨_, _, rfl, by decide, by decide⟩
  · intro _ ms _ _
    cases ms <;> exact ⟨_, _, rfl, by decide, by decide⟩

/-- Parsing a printed storable value returns its reread form and the text after it. -/
theorem parseValue_print {d : Nat} {v : Value} (h : v.Fits Value.StorableScalar d) :
    ∀ rest, endsNumber rest = true → parseValue d (print v ++ rest) = some (v.reread, rest) := by
  refine (Value.Fits.induction (P := fun d v => v.Fits Value.StorableScalar d ∧
    ∀ rest, endsNumber rest = true → parseValue d (print v ++ rest) = some (v.reread, rest))
      ?_ ?_ ?_ h).2
  · intro d v hc hs
    refine ⟨Value.fits_scalar hc hs, fun rest hrest => ?_⟩
    obtain ⟨hp, b, s, hb, hblank, h1, h2⟩ := parseScalar_print hc hs hrest
    rw [hb, List.cons_append] at hp ⊢
    cases d with
    | zero =>
      show parseScalar (skipBlanks _) = _
      rw [skipBlanks_cons hblank, hp]
    | succ d => simp only [parseValue, skipBlanks_cons hblank, if_neg h1, if_neg h2, hp]
  · intro d es ih
    refine ⟨fun v hv => (ih v hv).1, fun rest hrest => ?_⟩
    cases es with
    | nil => rfl
    | cons v es =>
      have hlist := listOf_printed Value.reread print closeBracket (by decide)
        (by decide) (by decide) (fun w hw => (ih w hw).2) (print_cons (ih v List.mem_cons_self).1)
        rest
      simp [print, printElements_eq, parseValue, skipBlanks_cons (b := openBracket) rfl, hlist,
        Value.reread, Value.rereadElements, Value.rereadElements_eq_map]
  · intro d ms hnd ih
    refine ⟨⟨hnd, fun m hm => ⟨(ih m hm).1, (ih m hm).2.1⟩⟩, fun rest hrest => ?_⟩
    cases ms with
    | nil => rfl
    | cons m ms =>
      have hmember : ∀ m' ∈ m :: ms, ∀ rest, endsNumber rest = true →
          parseMember (parseValue d) (printMember m' ++ rest) =
            some ((m'.1, m'.2.reread), rest) := by
        intro m' hm' rest hrest
        have hs := parseString_printString (ih m' hm').1 (colon :: (print m'.2 ++ rest))
        have hv := (ih m' hm').2.2 rest hrest
        have hshape :
            printMember m' ++ rest = printString m'.1 ++ colon :: (print m'.2 ++ rest) := by
          simp [printMember]
        have hskip : skipBlanks (printString m'.1 ++ colon :: (print m'.2 ++ rest)) =
            printString m'.1 ++ colon :: (print m'.2 ++ rest) := skipBlanks_cons rfl _
        simp [parseMember, hshape, hskip, hs, skipBlanks_cons (b := colon) rfl, hv]
      have hlist := listOf_printed (fun m : Bytes × Value => (m.1, m.2.reread)) printMember
        closeBrace (by decide) (by decide) (by decide) hmember
        ⟨quote, _, rfl, by decide, by decide⟩ rest
      have hkeys : (Object.keys ((m :: ms).map fun m => (m.1, m.2.reread))).Nodup := by
        rw [Object.keys, List.map_map]
        exact hnd
      have hset := foldl_set (o := []) hkeys
      obtain ⟨k, v⟩ := m
      simp only [List.nil_append] at hset
      simp only [printMember, List.append_assoc, List.cons_append] at hlist
      simp [print, printMembers_eq, parseValue, skipBlanks_cons (b := openBrace) rfl, hlist,
        Value.reread, Value.rereadMembers, Value.rereadMembers_eq_map, hset,
        show openBrace ≠ openBracket by decide]

/-! ## What the parser returns -/

theorem parsedScalar_integerValue {i : Int} {v : Value} (h : integerValue i = some v) :
    v.isContainer = false ∧ v.ParsedScalar := by
  unfold integerValue at h
  split at h
  · cases h; exact ⟨rfl, trivial⟩
  · split at h
    · next h1 h2 =>
      cases h
      refine ⟨rfl, ?_⟩
      show 2 ^ 63 ≤ (UInt64.ofNat i.toNat).toNat
      rw [UInt64.toNat_ofNat_of_lt' (by simp only [UInt64.size]; omega)]
      omega
    · cases h

theorem utf8_parseString {s r t : Bytes} (h : parseString s = some (t, r)) : Utf8 t := by
  unfold parseString at h
  split at h
  · cases h
  · split at h
    · obtain ⟨⟨t', r'⟩, _, h⟩ := Option.bind_eq_some_iff.1 h
      simp only at h
      split at h
      · cases h; assumption
      · cases h
    · cases h

theorem parsedScalar_parseScalar {s r : Bytes} {v : Value} (h : parseScalar s = some (v, r)) :
    v.isContainer = false ∧ v.ParsedScalar := by
  have literal : ∀ (t : Bytes) (w : Value), w.isContainer = false → w.ParsedScalar →
      parseLiteral t w s = some (v, r) → v.isContainer = false ∧ v.ParsedScalar := by
    intro t w hc hp h
    unfold parseLiteral at h
    split at h
    · cases h; exact ⟨hc, hp⟩
    · cases h
  unfold parseScalar at h
  split at h
  · obtain ⟨⟨t, r'⟩, ht, h⟩ := Option.map_eq_some_iff.1 h
    cases h
    exact ⟨rfl, utf8_parseString ht⟩
  split at h
  · exact literal _ .null rfl trivial h
  split at h
  · exact literal _ (.bool true) rfl trivial h
  split at h
  · exact literal _ (.bool false) rfl trivial h
  · obtain ⟨⟨i, r'⟩, _, h⟩ := Option.bind_eq_some_iff.1 h
    simp only at h
    split at h
    · obtain ⟨w, hw, h⟩ := Option.map_eq_some_iff.1 h
      cases h
      exact parsedScalar_integerValue hw
    · cases h

theorem parseMember_spec {p : Parser Value} {s r : Bytes} {m : Bytes × Value}
    (h : parseMember p s = some (m, r)) : Utf8 m.1 ∧ ∃ s₁ r₁, p s₁ = some (m.2, r₁) := by
  unfold parseMember at h
  obtain ⟨⟨k, s₁⟩, hk, h⟩ := Option.bind_eq_some_iff.1 h
  simp only at h
  split at h
  · cases h
  · split at h
    · obtain ⟨⟨v, s₂⟩, hv, h⟩ := Option.bind_eq_some_iff.1 h
      cases h
      exact ⟨utf8_parseString hk, _, _, hv⟩
    · cases h

/-- Folding assignments keeps the keys distinct and takes every member from the list. -/
theorem foldl_set_spec {Q : Bytes × Value → Prop} {ms : List (Bytes × Value)} :
    ∀ {o : Object}, o.keys.Nodup → (∀ m ∈ o, Q m) → (∀ m ∈ ms, Q m) →
      let o' := ms.foldl (fun o m => Object.set o m.1 m.2) o
      o'.keys.Nodup ∧ ∀ m ∈ o', Q m := by
  induction ms with
  | nil => intro o hnd ho _; exact ⟨hnd, ho⟩
  | cons m ms ih =>
    intro o hnd ho hms
    refine ih (Object.nodup_set hnd _ _) (fun m' hm' => ?_)
      (fun m' hm' => hms m' (List.mem_cons_of_mem _ hm'))
    rcases Object.mem_set hm' with rfl | hm'
    · exact hms m List.mem_cons_self
    · exact ho m' hm'

/-- Parsed values have UTF-8 strings, distinct keys and canonical integer kinds. -/
theorem fits_parseValue : ∀ {d : Nat} {s r : Bytes} {v : Value},
    parseValue d s = some (v, r) → v.Fits Value.ParsedScalar d := by
  intro d
  induction d with
  | zero =>
    intro s r v h
    obtain ⟨hc, hp⟩ := parsedScalar_parseScalar (s := skipBlanks s) h
    exact Value.fits_scalar hc hp
  | succ d ih =>
    intro s r v h
    simp only [parseValue] at h
    split at h
    · cases h
    split at h
    · obtain ⟨⟨es, r'⟩, hes, h⟩ := Option.map_eq_some_iff.1 h
      cases h
      intro v hv
      obtain ⟨s₁, r₁, hv'⟩ := listOf_mem hes v hv
      exact ih hv'
    split at h
    · obtain ⟨⟨ms, r'⟩, hms, h⟩ := Option.map_eq_some_iff.1 h
      cases h
      refine foldl_set_spec (Q := fun m => Utf8 m.1 ∧ m.2.Fits Value.ParsedScalar d)
        List.nodup_nil (fun m hm => by cases hm) fun m hm => ?_
      obtain ⟨s₁, r₁, hm'⟩ := listOf_mem hms m hm
      obtain ⟨hk, s₂, r₂, hv⟩ := parseMember_spec hm'
      exact ⟨hk, ih hv⟩
    · obtain ⟨hc, hp⟩ := parsedScalar_parseScalar h
      exact Value.fits_scalar hc hp

/-- The JSON library made of `print` and `parse`. -/
def compact : Engine where
  serialize := print
  parse := parse
  parse_serialize v h := by
    have hp := parseValue_print h [] rfl
    rw [List.append_nil] at hp
    simp [parse, hp, skipBlanks]
  utf8_serialize v h := utf8_print h
  parsed_parse {s v} h := by
    obtain ⟨⟨w, r⟩, hw, h⟩ := Option.bind_eq_some_iff.1 h
    simp only at h
    split at h
    · cases h; exact fits_parseValue hw
    · cases h

end Prapancha.Json
