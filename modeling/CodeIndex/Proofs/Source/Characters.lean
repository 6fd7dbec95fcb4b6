import CodeIndex.Source

/-!
# Characters in the octets of a text

An octet either starts a character or continues one, so the offsets between characters are those at
which some first characters of the text end (`Intact.isBoundary_iff`). Two of them cut out a text
(`Intact.exists_split`, `Intact.slice?_eq`), which is a single character if no other lies between them
(`Intact.length_slice`).
-/

namespace CodeIndex.Source

/-! ## One character -/

/-- Whether an octet starts a character. -/
def leads (b : UInt8) : Bool :=
  b.toNat < 0x80 || 0xc0 ≤ b.toNat

theorem leads_small {n : Nat} (h : n < 0x80) : leads (UInt8.ofNat n) = true := by
  simp [leads]; omega

theorem leads_large {n : Nat} (h : 0xc0 ≤ n) (h' : n < 0x100) :
    leads (UInt8.ofNat n) = true ∧ UInt8.ofNat n ≠ lineFeed := by
  refine ⟨by simp [leads]; omega, fun e => ?_⟩
  have := congrArg UInt8.toNat e
  simp [lineFeed] at this
  omega

theorem leads_continuation (n : Nat) : leads (UInt8.ofNat (n % 0x40 + 0x80)) = false := by
  simp [leads]; omega

/-- A character is one octet that starts it and octets that start nothing. -/
theorem utf8EncodeChar_shape (c : Char) :
    ∃ b tail, String.utf8EncodeChar c = b :: tail ∧ leads b = true ∧ (∀ x ∈ tail, leads x = false) ∧
      (b = lineFeed → c = '\n') := by
  simp only [String.utf8EncodeChar, Char.toNat_val]
  split
  · next h =>
    refine ⟨_, [], rfl, leads_small (by omega), by simp, fun e => ?_⟩
    have := congrArg UInt8.toNat e
    simp only [UInt8.toNat_ofNat', lineFeed, UInt8.reduceToNat] at this
    have e10 : c.toNat = 10 := by omega
    rw [← Char.ofNat_toNat c, e10]
  · -- two, three or four octets: the first is at least 0xc0, those behind it are continuations
    split
    · have h1 := leads_large (n := c.toNat / 64 % 0x20 + 0xc0) (by omega) (by omega)
      refine ⟨_, _, rfl, h1.1, ?_, fun e => absurd e h1.2⟩
      simp only [List.mem_cons, List.not_mem_nil, or_false, forall_eq, leads_continuation]
    · split
      · have h1 := leads_large (n := c.toNat / 4096 % 0x10 + 0xe0) (by omega) (by omega)
        refine ⟨_, _, rfl, h1.1, ?_, fun e => absurd e h1.2⟩
        simp only [List.mem_cons, List.not_mem_nil, or_false, forall_eq_or_imp, forall_eq,
          leads_continuation, and_self]
      · have h1 := leads_large (n := c.toNat / 262144 % 0x08 + 0xf0) (by omega) (by omega)
        refine ⟨_, _, rfl, h1.1, ?_, fun e => absurd e h1.2⟩
        simp only [List.mem_cons, List.not_mem_nil, or_false, forall_eq_or_imp, forall_eq,
          leads_continuation, and_self]

/-- The octets of characters. -/
def encode (cs : List Char) : List UInt8 :=
  cs.flatMap String.utf8EncodeChar

@[simp] theorem encode_nil : encode [] = [] := rfl

theorem encode_cons (c : Char) (cs : List Char) :
    encode (c :: cs) = String.utf8EncodeChar c ++ encode cs := rfl

@[simp] theorem encode_append (cs ds : List Char) : encode (cs ++ ds) = encode cs ++ encode ds := by
  simp [encode]

/-- The octets up to the first line feed are those of the characters up to there. -/
theorem takeWhile_encode (cs : List Char) :
    (encode cs).takeWhile (· != lineFeed) = encode (cs.takeWhile (· != '\n')) := by
  induction cs with
  | nil => rfl
  | cons c cs ih =>
    by_cases hc : c = '\n'
    · subst hc
      rfl
    · obtain ⟨b, tail, hencoded, -, htail, hline⟩ := utf8EncodeChar_shape c
      have hnone : ∀ x ∈ String.utf8EncodeChar c, (x != lineFeed) = true := by
        rw [hencoded]
        intro x hx
        rcases List.mem_cons.mp hx with rfl | hx
        · exact bne_iff_ne.mpr fun heq => hc (hline heq)
        · refine bne_iff_ne.mpr fun heq => ?_
          have hleads := htail x hx
          rw [heq] at hleads
          exact absurd hleads (by decide)
      have hfirst : (c :: cs).takeWhile (· != '\n') = c :: cs.takeWhile (· != '\n') :=
        List.takeWhile_cons_of_pos (bne_iff_ne.mpr hc)
      rw [encode_cons, List.takeWhile_append_of_pos hnone, ih, hfirst, encode_cons]

/-- The octets of characters are a text. -/
theorem fromUTF8?_encode (cs : List Char) : String.fromUTF8? ⟨(encode cs).toArray⟩ = some (String.ofList cs) := by
  have hbytes : (⟨(encode cs).toArray⟩ : ByteArray) = (String.ofList cs).toByteArray := by
    rw [String.toByteArray_ofList, List.utf8Encode]
    apply ByteArray.ext
    apply Array.toList_inj.mp
    simp [encode]
  have hvalid : ByteArray.IsValidUTF8 (String.ofList cs).toByteArray := (String.ofList cs).isValidUTF8
  rw [hbytes, String.fromUTF8?, dif_pos hvalid]
  rfl

/-- An octet starts a character exactly where some of the characters end. -/
theorem leads_iff_split {cs : List Char} {a : Nat} {b : UInt8} (h : (encode cs)[a]? = some b) :
    leads b = true ↔ ∃ front back, cs = front ++ back ∧ (encode front).length = a := by
  induction cs generalizing a with
  | nil => simp at h
  | cons c cs ih =>
    obtain ⟨first, tail, hc, hfirst, htail, -⟩ := utf8EncodeChar_shape c
    rw [encode_cons, hc] at h
    rcases Nat.eq_zero_or_pos a with rfl | ha
    · simp only [List.cons_append, List.getElem?_cons_zero, Option.some.injEq] at h
      subst h
      exact iff_of_true hfirst ⟨[], c :: cs, rfl, rfl⟩
    by_cases hin : a < (first :: tail).length
    · -- inside the first character
      rw [List.getElem?_append_left hin, List.getElem?_cons] at h
      rw [if_neg (by omega)] at h
      have hb := htail b (List.mem_of_getElem? h)
      refine iff_of_false (by simp [hb]) ?_
      rintro ⟨front, back, hsplit, hlen⟩
      cases front with
      | nil => simp at hlen; omega
      | cons c' front =>
        obtain ⟨rfl, -⟩ := List.cons.inj hsplit
        simp [encode_cons, hc] at hlen hin
        omega
    · rw [List.getElem?_append_right (by omega)] at h
      rw [ih h]
      constructor
      · rintro ⟨front, back, rfl, hlen⟩
        refine ⟨c :: front, back, rfl, ?_⟩
        rw [encode_cons, hc, List.length_append, hlen]
        omega
      · rintro ⟨front, back, hsplit, hlen⟩
        cases front with
        | nil => simp at hlen; omega
        | cons c' front =>
          obtain ⟨rfl, rfl⟩ := List.cons.inj hsplit
          refine ⟨front, back, rfl, ?_⟩
          simp only [encode_cons, hc, List.length_append] at hlen
          omega

theorem toList_octets (text : String) : (ofString text).octets.toList = encode text.toList := by
  simp only [ofString]
  rw [← String.utf8Encode_toList, List.utf8Encode]
  simp [encode]

/-! ## Boundaries -/

/-- The octets and line starts are those of the text. -/
def Intact (s : Source) : Prop := s = ofString s.text

theorem intact_ofString (text : String) : (ofString text).Intact := rfl

variable {s : Source}

theorem Intact.toList_octets (hs : s.Intact) : s.octets.toList = encode s.text.toList := by
  rw [hs]; exact Source.toList_octets s.text

theorem Intact.size_eq (hs : s.Intact) : s.size = (encode s.text.toList).length := by
  rw [size, ← hs.toList_octets, Array.length_toList]

/-- The offsets between characters are those where some of the characters end. -/
theorem Intact.isBoundary_iff (hs : s.Intact) {a : Nat} :
    s.isBoundary a = true ↔ ∃ front back, s.text.toList = front ++ back ∧ (encode front).length = a := by
  unfold isBoundary
  rw [← Array.getElem?_toList, hs.toList_octets]
  split
  · next b hb => exact leads_iff_split hb
  · next hb =>
    rw [List.getElem?_eq_none_iff, ← hs.size_eq] at hb
    rw [beq_iff_eq]
    constructor
    · rintro rfl
      exact ⟨s.text.toList, [], by simp, hs.size_eq.symm⟩
    · rintro ⟨front, back, hsplit, hlen⟩
      rw [hs.size_eq, hsplit, encode_append, List.length_append] at hb ⊢
      omega

theorem Intact.isBoundary_zero (hs : s.Intact) : s.isBoundary 0 = true :=
  hs.isBoundary_iff.mpr ⟨[], s.text.toList, rfl, rfl⟩

theorem Intact.isBoundary_size (hs : s.Intact) : s.isBoundary s.size = true :=
  hs.isBoundary_iff.mpr ⟨s.text.toList, [], by simp, hs.size_eq.symm⟩

theorem Intact.le_size (hs : s.Intact) {a : Nat} (ha : s.isBoundary a = true) : a ≤ s.size := by
  obtain ⟨front, back, hsplit, rfl⟩ := hs.isBoundary_iff.mp ha
  rw [hs.size_eq, hsplit, encode_append, List.length_append]
  omega

/-- Behind a line feed a character starts. -/
theorem Intact.isBoundary_after_feed (hs : s.Intact) {x : Nat} (h : s.octets[x]? = some lineFeed) :
    s.isBoundary (x + 1) = true := by
  rw [← Array.getElem?_toList, hs.toList_octets] at h
  obtain ⟨front, back, hsplit, hlen⟩ := (leads_iff_split h).mp (by decide)
  rw [hsplit, encode_append, ← hlen, List.getElem?_append_right (Nat.le_refl _), Nat.sub_self] at h
  cases back with
  | nil => simp at h
  | cons c back =>
    obtain ⟨first, tail, hc, -, -, hline⟩ := utf8EncodeChar_shape c
    rw [encode_cons, hc] at h
    simp only [List.cons_append, List.getElem?_cons_zero, Option.some.injEq] at h
    obtain rfl := hline h
    refine hs.isBoundary_iff.mpr ⟨front ++ ['\n'], back, by simp [hsplit], ?_⟩
    rw [encode_append, List.length_append, hlen]
    rfl

theorem encode_ne_nil (cs : List Char) (h : cs ≠ []) : 0 < (encode cs).length := by
  cases cs with
  | nil => exact absurd rfl h
  | cons c cs =>
    obtain ⟨first, tail, hc, -⟩ := utf8EncodeChar_shape c
    simp [encode_cons, hc]

/-- Two offsets between characters part the text in three. -/
theorem Intact.exists_split (hs : s.Intact) {a b : Nat} (ha : s.isBoundary a = true)
    (hb : s.isBoundary b = true) (hab : a ≤ b) :
    ∃ front mid back, s.text.toList = front ++ mid ++ back ∧ (encode front).length = a ∧
      (encode (front ++ mid)).length = b := by
  obtain ⟨front, rest, hfront, hla⟩ := hs.isBoundary_iff.mp ha
  obtain ⟨upto, back, hupto, hlb⟩ := hs.isBoundary_iff.mp hb
  rw [hfront] at hupto
  rcases List.append_eq_append_iff.mp hupto with ⟨mid, rfl, rfl⟩ | ⟨mid, rfl, rfl⟩
  · exact ⟨front, mid, back, by rw [hfront, List.append_assoc], hla, hlb⟩
  · -- the second offset lies at the first one
    rw [encode_append, List.length_append] at hla
    have hmid : mid = [] := by
      cases hm : mid with
      | nil => rfl
      | cons c cs =>
        have := encode_ne_nil mid (by simp [hm])
        omega
    subst hmid
    exact ⟨upto, [], rest, by simpa using hfront, by simpa using hla, by simpa using hlb⟩

/-- The text between two offsets between characters. -/
theorem Intact.slice?_eq (hs : s.Intact) {front mid back : List Char}
    (h : s.text.toList = front ++ mid ++ back) :
    s.slice? (encode front).length (encode (front ++ mid)).length = some (String.ofList mid) := by
  have hsize : (encode (front ++ mid)).length ≤ s.size := by
    rw [hs.size_eq, h, encode_append _ back, List.length_append]; omega
  have hoctets : s.octets.extract (encode front).length (encode (front ++ mid)).length =
      (encode mid).toArray := by
    apply Array.toList_inj.mp
    rw [Array.toList_extract, hs.toList_octets, h]
    simp [List.extract]
  unfold slice?
  rw [if_pos (by simpa using hsize), hoctets, fromUTF8?_encode]

theorem Intact.exists_slice (hs : s.Intact) {a b : Nat} (ha : s.isBoundary a = true)
    (hb : s.isBoundary b = true) (hab : a ≤ b) : ∃ text, s.slice? a b = some text := by
  obtain ⟨front, mid, back, hsplit, rfl, rfl⟩ := hs.exists_split ha hb hab
  exact ⟨_, hs.slice?_eq hsplit⟩

/-- The octets of a slice are those between its ends. -/
theorem toByteArray_of_slice? {a b : Nat} {text : String} (h : s.slice? a b = some text) :
    text.toByteArray.data = s.octets.extract a b ∧ a ≤ b ∧ b ≤ s.size := by
  unfold slice? at h
  split at h
  · next hab =>
    rw [String.fromUTF8?] at h
    split at h
    · cases h
      simp only [Bool.and_eq_true, decide_eq_true_eq] at hab
      exact ⟨rfl, hab⟩
    · cases h
  · cases h

theorem utf8ByteSize_of_slice? {a b : Nat} {text : String} (h : s.slice? a b = some text) :
    text.utf8ByteSize = b - a := by
  obtain ⟨hdata, hab, hb⟩ := toByteArray_of_slice? h
  have := congrArg Array.size hdata
  rw [Array.size_extract] at this
  unfold size at hb
  rw [← String.size_toByteArray, ByteArray.size, this]
  omega

/-- A slice with no offset between characters inside is one character. -/
theorem Intact.length_slice (hs : s.Intact) {a b : Nat} {text : String}
    (ha : s.isBoundary a = true) (hb : s.isBoundary b = true) (hab : a < b)
    (hinside : ∀ k, a < k → k < b → s.isBoundary k = false) (h : s.slice? a b = some text) :
    text.length = 1 := by
  obtain ⟨front, mid, back, hsplit, rfl, rfl⟩ := hs.exists_split ha hb (Nat.le_of_lt hab)
  rw [hs.slice?_eq hsplit, Option.some.injEq] at h
  subst h
  cases mid with
  | nil => simp at hab
  | cons c rest =>
    cases rest with
    | nil => simp
    | cons d rest =>
      -- the end of the first character lies inside
      have hk : s.isBoundary (encode (front ++ [c])).length = true :=
        hs.isBoundary_iff.mpr ⟨front ++ [c], d :: rest ++ back, by simp [hsplit], rfl⟩
      have hc := encode_ne_nil [c] (by simp)
      have hd := encode_ne_nil (d :: rest) (by simp)
      rw [hinside _ (by simp only [encode_append, List.length_append]; omega) (by
        rw [show front ++ c :: d :: rest = front ++ [c] ++ (d :: rest) by simp,
          encode_append _ (d :: rest), List.length_append]
        omega)] at hk
      cases hk

/-! ## The nearest boundaries -/

theorem floorBoundary_le (s : Source) (i : Nat) : s.floorBoundary i ≤ i := by
  induction i with
  | zero => simp [floorBoundary]
  | succ i ih =>
    rw [floorBoundary]
    split <;> omega

theorem Intact.isBoundary_floorBoundary (hs : s.Intact) (i : Nat) :
    s.isBoundary (s.floorBoundary i) = true := by
  induction i with
  | zero => exact hs.isBoundary_zero
  | succ i ih =>
    rw [floorBoundary]
    split
    · assumption
    · exact ih

theorem boundaryWithin_spec (s : Source) (n i : Nat) :
    i ≤ s.boundaryWithin n i ∧ s.boundaryWithin n i ≤ i + n ∧
      (s.isBoundary (s.boundaryWithin n i) = true ∨ s.boundaryWithin n i = i + n) ∧
      ∀ k, i ≤ k → k < s.boundaryWithin n i → s.isBoundary k = false := by
  induction n generalizing i with
  | zero =>
    refine ⟨Nat.le_refl _, Nat.le_refl _, .inr rfl, fun k hk hk' => ?_⟩
    simp only [boundaryWithin] at hk'
    omega
  | succ n ih =>
    rw [boundaryWithin]
    split
    · next hi => exact ⟨Nat.le_refl _, by omega, .inl hi, fun k hk hk' => by omega⟩
    · next hi =>
      obtain ⟨h1, h2, h3, h4⟩ := ih (i + 1)
      refine ⟨by omega, by omega, h3.imp_right (by omega), fun k hk hk' => ?_⟩
      rcases Nat.eq_or_lt_of_le hk with rfl | hlt
      · simpa using hi
      · exact h4 k hlt hk'

theorem le_ceilBoundary (s : Source) (i : Nat) : i ≤ s.ceilBoundary i :=
  (boundaryWithin_spec s _ i).1

theorem Intact.isBoundary_ceilBoundary (hs : s.Intact) {i : Nat} (hi : i ≤ s.size) :
    s.isBoundary (s.ceilBoundary i) = true := by
  unfold ceilBoundary
  rcases (boundaryWithin_spec s (s.size - i) i).2.2.1 with h | h
  · exact h
  · rw [h, Nat.add_sub_cancel' hi]
    exact hs.isBoundary_size

theorem not_isBoundary_of_lt_ceilBoundary {i k : Nat} (hik : i ≤ k) (hk : k < s.ceilBoundary i) :
    s.isBoundary k = false :=
  (boundaryWithin_spec s _ i).2.2.2 k hik hk

theorem ceilBoundary_le {i k : Nat} (hk : s.isBoundary k = true) (hik : i ≤ k) :
    s.ceilBoundary i ≤ k := by
  rcases Nat.lt_or_ge k (s.ceilBoundary i) with h | h
  · rw [not_isBoundary_of_lt_ceilBoundary hik h] at hk
    cases hk
  · exact h

end CodeIndex.Source
