import ScxCohort.Lib.Utf8.Encode

/-!
This module contains what lossy decoding is meant to do: the bytes are cut into encoded characters and
maximal ill-formed sequences, and each of the latter is replaced. The decoder does this.
-/

namespace Utf8

-- The start of an encoded character, or all of it.
def Viable (s : List UInt8) : Prop := ∃ t, wellFormed (s ++ t) = true

-- No character starts here, and as many bytes as could have started one are taken, or else one.
structure IllFormed (s rest : List UInt8) : Prop where
  nonempty : s ≠ []
  viable : s.length = 1 ∨ Viable s
  unconvertible : ∀ t, t <+: s ++ rest → wellFormed t = false
  longest : ∀ t, t <+: s ++ rest → Viable t → t.length ≤ s.length

inductive Segmented : List UInt8 → List (List UInt8) → Prop
  | nil : Segmented [] []
  | cons {s rest : List UInt8} {segs : List (List UInt8)} (hs : wellFormed s = true ∨ IllFormed s rest)
      (h : Segmented rest segs) : Segmented (s ++ rest) (s :: segs)

-- The character that a sequence is decoded to.
def Reads (s : List UInt8) (x : Char) : Prop :=
  if wellFormed s then String.utf8EncodeChar x = s else x = replacement

section Prefixes

variable {b c d e : UInt8} {s t rest : List UInt8}

-- The first byte says how many are to follow.
def tailLength (b : UInt8) : Nat :=
  if b < 0x80 then 0 else if b < 0xE0 then 1 else if b < 0xF0 then 2 else 3

theorem le_of_secondOk (h : secondOk b c = true) : 0xE0 ≤ b.toNat := by
  rw [secondOk_iff] at h
  omega

theorem isCont_of_secondOk (h : secondOk b c = true) : isCont c = true := by
  rw [secondOk_iff] at h
  rw [isCont_iff]
  omega

theorem length_of_wellFormed (h : wellFormed (b :: s) = true) : s.length = tailLength b := by
  unfold tailLength
  simp only [UInt8.lt_iff_toNat_lt, UInt8.reduceToNat]
  match s, h with
  | [], h =>
    simp only [wellFormed, decide_eq_true_eq, UInt8.lt_iff_toNat_lt, UInt8.reduceToNat] at h
    rw [if_pos h, List.length_nil]
  | [c], h =>
    simp only [wellFormed, Bool.and_eq_true, inRange_iff, UInt8.reduceToNat] at h
    rw [if_neg (by omega), if_pos (by omega)]
    rfl
  | [c, d], h =>
    simp only [wellFormed, Bool.and_eq_true, decide_eq_true_eq, UInt8.lt_iff_toNat_lt,
      UInt8.reduceToNat] at h
    have hle := le_of_secondOk h.1.2
    rw [if_neg (by omega), if_neg (by omega), if_pos h.1.1]
    rfl
  | [c, d, e], h =>
    simp only [wellFormed, Bool.and_eq_true, Bool.not_eq_true', decide_eq_false_iff_not,
      UInt8.lt_iff_toNat_lt,
      UInt8.reduceToNat] at h
    rw [if_neg (by omega), if_neg (by omega), if_neg h.1.1.1]
    rfl

theorem secondOk_of_wellFormed (h : wellFormed (b :: c :: d :: s) = true)
    : secondOk b c = true ∧ isCont d = true := by
  match s, h with
  | [], h =>
    simp only [wellFormed, Bool.and_eq_true] at h
    exact ⟨h.1.2, h.2⟩
  | [e], h =>
    simp only [wellFormed, Bool.and_eq_true] at h
    exact ⟨h.1.1.2, h.1.2⟩

-- What the start of a character is like.
theorem viable_cons (h : Viable (b :: s))
    : b < 0x80 ∨ inRange b 0xC2 0xDF = true ∨ inRange b 0xE0 0xF4 = true := by
  obtain ⟨t, h⟩ := h
  rw [List.cons_append] at h
  match s ++ t, h with
  | [], h => exact Or.inl (of_decide_eq_true h)
  | [c], h =>
    simp only [wellFormed, Bool.and_eq_true] at h
    exact Or.inr (Or.inl h.1)
  | c :: d :: u, h =>
    have hsecond := (secondOk_of_wellFormed h).1
    rw [secondOk_iff] at hsecond
    right
    right
    rw [inRange_iff]
    simp only [UInt8.reduceToNat]
    omega

theorem viable_cons_cons (h : Viable (b :: c :: s))
    : inRange b 0xC2 0xDF = true ∧ isCont c = true ∨ secondOk b c = true := by
  obtain ⟨t, h⟩ := h
  rw [List.cons_append, List.cons_append] at h
  match s ++ t, h with
  | [], h =>
    simp only [wellFormed, Bool.and_eq_true] at h
    exact Or.inl h
  | d :: u, h => exact Or.inr (secondOk_of_wellFormed h).1

theorem viable_cons_cons_cons (h : Viable (b :: c :: d :: s)) : isCont d = true := by
  obtain ⟨t, h⟩ := h
  exact (secondOk_of_wellFormed h).2

theorem viable_four (h : Viable [b, c, d, e]) : isCont e = true := by
  obtain ⟨t, h⟩ := h
  match t, h with
  | [], h =>
    simp only [List.append_nil, wellFormed, Bool.and_eq_true] at h
    exact h.2

theorem viable_two (h : secondOk b c = true) : Viable [b, c] := by
  by_cases hb : b < 0xF0
  . exists [0x80]
    simp only [List.cons_append, List.nil_append, wellFormed, hb, h]
    rfl
  . exists [0x80, 0x80]
    simp only [List.cons_append, List.nil_append, wellFormed, hb, h]
    rfl

theorem viable_three (hb : ¬b < 0xF0) (hc : secondOk b c = true) (hd : isCont d = true)
    : Viable [b, c, d] := by
  exists [0x80]
  simp only [List.cons_append, List.nil_append, wellFormed, hb, hc, hd]
  rfl

theorem viable_of_prefix (h : Viable t) (hst : s <+: t) : Viable s := by
  obtain ⟨u, rfl⟩ := hst
  obtain ⟨v, hv⟩ := h
  exists u ++ v
  rw [← List.append_assoc]
  exact hv

theorem viable_of_wellFormed (h : wellFormed s = true) : Viable s := by
  exists []
  rw [List.append_nil]
  exact h

-- It is enough to look one byte further.
theorem illFormed_of (hlen : s.length < tailLength b) (hs : s = [] ∨ Viable (b :: s))
    (hnext : ∀ x, rest.head? = some x → ¬Viable (b :: s ++ [x])) : IllFormed (b :: s) rest := by
  have hlongest : ∀ t, t <+: b :: s ++ rest → Viable t → t.length ≤ (b :: s).length := by
    intro t ht hviable
    by_contra hlt
    obtain ⟨u, hu⟩ := List.prefix_of_prefix_length_le (List.prefix_append _ _) ht (by omega)
    cases u with
    | nil =>
      rw [← hu, List.append_nil] at hlt
      exact hlt le_rfl
    | cons x u =>
      rw [← hu, List.prefix_append_right_inj] at ht
      cases rest with
      | nil => simp at ht
      | cons y rest =>
        obtain ⟨rfl, _⟩ := List.cons_prefix_cons.mp ht
        apply hnext x rfl
        apply viable_of_prefix hviable
        rw [← hu, List.prefix_append_right_inj]
        exact List.prefix_append [x] u
  constructor
  . simp
  . cases hs with
    | inl hs =>
      left
      rw [hs]
      rfl
    | inr hs => exact Or.inr hs
  . intro t ht
    by_contra hwf
    rw [Bool.not_eq_false] at hwf
    have hle := hlongest t ht (viable_of_wellFormed hwf)
    cases t with
    | nil => cases hwf
    | cons x t =>
      obtain ⟨rfl, _⟩ := List.cons_prefix_cons.mp ht
      rw [List.length_cons, List.length_cons, length_of_wellFormed hwf] at hle
      omega
  . exact hlongest

end Prefixes

section Decoding

variable {b c d e : UInt8} {s rest : List UInt8} {x : Char}

-- One sequence is taken off, and read.
def Takes (bytes : List UInt8) (p : Char × List UInt8) : Prop :=
  ∃ s, bytes = s ++ p.2 ∧ Reads s p.1 ∧ (wellFormed s = true ∨ IllFormed s p.2)

theorem takes_char (h : String.utf8EncodeChar x = s) : Takes (s ++ rest) (x, rest) := by
  have hwf : wellFormed s = true := by
    rw [← h]
    exact wellFormed_encode
  refine ⟨s, rfl, ?_, Or.inl hwf⟩
  unfold Reads
  rw [if_pos hwf]
  exact h

theorem takes_replacement (hlen : s.length < tailLength b) (hs : s = [] ∨ Viable (b :: s))
    (hnext : ∀ y, rest.head? = some y → ¬Viable (b :: s ++ [y]))
    : Takes (b :: s ++ rest) (replacement, rest) := by
  have hill : IllFormed (b :: s) rest := illFormed_of hlen hs hnext
  refine ⟨b :: s, rfl, ?_, Or.inr hill⟩
  unfold Reads
  rw [if_neg]
  rw [Bool.not_eq_true]
  exact hill.unconvertible (b :: s) (List.prefix_append (b :: s) rest)

theorem takes_end (hlen : s.length < tailLength b) (hs : s = [] ∨ Viable (b :: s))
    : Takes (b :: s) (replacement, []) := by
  have h : Takes (b :: s ++ []) (replacement, []) := by
    apply takes_replacement hlen hs
    simp
  rw [List.append_nil] at h
  exact h

theorem takes_before {y : UInt8} (hlen : s.length < tailLength b) (hs : s = [] ∨ Viable (b :: s))
    (hnext : ¬Viable (b :: s ++ [y])) : Takes (b :: s ++ y :: rest) (replacement, y :: rest) := by
  apply takes_replacement hlen hs
  intro z hz
  rw [List.head?_cons, Option.some.injEq] at hz
  rw [← hz]
  exact hnext

theorem tailLength_pos (h : ¬b < 0x80) : 0 < tailLength b := by
  unfold tailLength
  rw [if_neg h]
  split
  . omega
  split
  . omega
  . omega

theorem one_lt_tailLength (h : inRange b 0xE0 0xF4 = true) : 1 < tailLength b := by
  rw [inRange_iff] at h
  unfold tailLength
  simp only [UInt8.lt_iff_toNat_lt, UInt8.reduceToNat] at h ⊢
  rw [if_neg (by omega), if_neg (by omega)]
  split
  . omega
  . omega

theorem two_lt_tailLength (h : inRange b 0xE0 0xF4 = true) (hb : ¬b < 0xF0) : 2 < tailLength b := by
  rw [inRange_iff] at h
  unfold tailLength
  simp only [UInt8.lt_iff_toNat_lt, UInt8.reduceToNat] at h hb ⊢
  rw [if_neg (by omega), if_neg (by omega), if_neg hb]
  omega

-- The cases are those of the decoder.
theorem decodeChar_takes (b : UInt8) (rest : List UInt8) : Takes (b :: rest) (decodeChar b rest) := by
  unfold decodeChar
  split
  . next hb => exact takes_char (encode_one hb)
  next hb =>
  have hpos := tailLength_pos hb
  split
  . next htwo =>
    cases rest with
    | nil => exact takes_end hpos (Or.inl rfl)
    | cons c rest =>
      dsimp only
      split
      . next hc => exact takes_char (encode_two htwo hc)
      . next hc =>
        apply takes_before (s := []) hpos (Or.inl rfl)
        intro hviable
        cases viable_cons_cons hviable with
        | inl h => exact hc h.2
        | inr h => exact hc (isCont_of_secondOk h)
  next htwo =>
  split
  . next hthree =>
    have hone := one_lt_tailLength hthree
    cases rest with
    | nil => exact takes_end hpos (Or.inl rfl)
    | cons c rest =>
      dsimp only
      split
      . next hc =>
        cases rest with
        | nil => exact takes_end hone (Or.inr (viable_two hc))
        | cons d rest =>
          dsimp only
          split
          . next hd =>
            split
            . next hlt => exact takes_char (encode_three hlt hc hd)
            . next hlt =>
              have htwo := two_lt_tailLength hthree hlt
              cases rest with
              | nil => exact takes_end htwo (Or.inr (viable_three hlt hc hd))
              | cons e rest =>
                dsimp only
                split
                . next he => exact takes_char (encode_four hlt hc hd he)
                . next he =>
                  exact takes_before (s := [c, d]) htwo (Or.inr (viable_three hlt hc hd))
                    (mt viable_four he)
          . next hd =>
            exact takes_before (s := [c]) hone (Or.inr (viable_two hc)) (mt viable_cons_cons_cons hd)
      . next hc =>
        apply takes_before (s := []) hpos (Or.inl rfl)
        intro hviable
        cases viable_cons_cons hviable with
        | inl h => exact htwo h.1
        | inr h => exact hc h
  . next hthree =>
    apply takes_replacement (s := []) hpos (Or.inl rfl)
    intro y _ hviable
    cases viable_cons hviable with
    | inl h => exact hb h
    | inr h => exact h.elim htwo hthree

theorem length_pos_of_sequence (h : wellFormed s = true ∨ IllFormed s rest) : 0 < s.length := by
  cases h with
  | inl h =>
    cases s with
    | nil => cases h
    | cons b s => simp
  | inr h => exact List.length_pos_of_ne_nil h.nonempty

theorem segmented_decodeLossy {fuel : Nat} {bytes : List UInt8} (h : bytes.length ≤ fuel)
    : ∃ segs, Segmented bytes segs ∧ List.Forall₂ Reads segs (decodeLossy fuel bytes) := by
  induction fuel generalizing bytes with
  | zero =>
    have hnil : bytes = [] := List.eq_nil_of_length_eq_zero (by omega)
    rw [hnil]
    exact ⟨[], Segmented.nil, List.Forall₂.nil⟩
  | succ fuel ih =>
    cases bytes with
    | nil => exact ⟨[], Segmented.nil, List.Forall₂.nil⟩
    | cons b rest =>
      obtain ⟨s, hs, hreads, hseq⟩ := decodeChar_takes b rest
      have hpos := length_pos_of_sequence hseq
      have hlength := congrArg List.length hs
      rw [List.length_cons, List.length_append] at hlength
      rw [List.length_cons] at h
      obtain ⟨segs, hsegs, hall⟩ := @ih (decodeChar b rest).2 (by omega)
      refine ⟨s :: segs, ?_, List.Forall₂.cons hreads hall⟩
      rw [hs]
      exact Segmented.cons hseq hsegs

-- The bytes can be cut in one way only.
theorem length_eq_of_wellFormed {t u : List UInt8} (hs : wellFormed s = true) (ht : wellFormed t = true)
    (h : s ++ rest = t ++ u) : s.length = t.length := by
  cases s with
  | nil => cases hs
  | cons b s =>
    cases t with
    | nil => cases ht
    | cons c t =>
      rw [List.cons_append, List.cons_append, List.cons.injEq] at h
      rw [h.1] at hs
      rw [List.length_cons, List.length_cons, length_of_wellFormed hs, length_of_wellFormed ht]

theorem length_le_of_illFormed {t u : List UInt8} (hs : IllFormed s rest) (ht : IllFormed t u)
    (h : s ++ rest = t ++ u) : s.length ≤ t.length := by
  cases hs.viable with
  | inl hone =>
    have hpos : 0 < t.length := List.length_pos_of_ne_nil ht.nonempty
    omega
  | inr hviable =>
    apply ht.longest s _ hviable
    rw [← h]
    exact List.prefix_append s rest

theorem not_illFormed_of_wellFormed {t u : List UInt8} (hs : wellFormed s = true)
    (h : s ++ rest = t ++ u)
    : ¬IllFormed t u := by
  intro ht
  have hfalse := ht.unconvertible s (by rw [← h]; exact List.prefix_append s rest)
  rw [hs] at hfalse
  cases hfalse

theorem length_eq_of_sequence {t u : List UInt8} (hs : wellFormed s = true ∨ IllFormed s rest)
    (ht : wellFormed t = true ∨ IllFormed t u) (h : s ++ rest = t ++ u) : s.length = t.length := by
  cases hs with
  | inl hs =>
    cases ht with
    | inl ht => exact length_eq_of_wellFormed hs ht h
    | inr ht => exact absurd ht (not_illFormed_of_wellFormed hs h)
  | inr hs =>
    cases ht with
    | inl ht => exact absurd hs (not_illFormed_of_wellFormed ht h.symm)
    | inr ht => exact le_antisymm (length_le_of_illFormed hs ht h) (length_le_of_illFormed ht hs h.symm)

theorem segmented_unique {bytes : List UInt8} {segs segs' : List (List UInt8)} (h : Segmented bytes segs)
    (h' : Segmented bytes segs') : segs = segs' := by
  induction h generalizing segs' with
  | nil =>
    generalize hbytes : ([] : List UInt8) = bytes at h'
    cases h' with
    | nil => rfl
    | cons ht _ =>
      have hpos := length_pos_of_sequence ht
      rw [(List.append_eq_nil_iff.mp hbytes.symm).1] at hpos
      cases hpos
  | @cons s rest segs hs h ih =>
    generalize hbytes : s ++ rest = bytes at h'
    cases h' with
    | nil =>
      have hpos := length_pos_of_sequence hs
      rw [(List.append_eq_nil_iff.mp hbytes).1] at hpos
      cases hpos
    | @cons t rest' segs' ht h' =>
      obtain ⟨heq, hrest⟩ := List.append_inj hbytes (length_eq_of_sequence hs ht hbytes)
      rw [← hrest] at h'
      rw [heq, ih h']

theorem encode_injective {y : Char} (h : String.utf8EncodeChar x = String.utf8EncodeChar y) : x = y := by
  have hx := @ByteArray.utf8DecodeChar?_utf8EncodeChar_append ByteArray.empty x
  rw [h, ByteArray.utf8DecodeChar?_utf8EncodeChar_append, Option.some.injEq] at hx
  exact hx.symm

theorem reads_unique {y : Char} (hx : Reads s x) (hy : Reads s y) : x = y := by
  unfold Reads at hx hy
  split at hx
  . next hwf =>
    rw [if_pos hwf] at hy
    apply encode_injective
    rw [hx, hy]
  . next hwf =>
    rw [if_neg hwf] at hy
    rw [hx, hy]

theorem allReads_unique {segs : List (List UInt8)} {xs ys : List Char} (hxs : List.Forall₂ Reads segs xs)
    (hys : List.Forall₂ Reads segs ys) : xs = ys := by
  induction hxs generalizing ys with
  | nil =>
    cases hys
    rfl
  | cons hx _ ih =>
    cases hys with
    | cons hy hys => rw [reads_unique hx hy, ih hys]

theorem segmented_fromUtf8Lossy (bytes : List UInt8)
    : ∃ segs, Segmented bytes segs ∧ List.Forall₂ Reads segs (fromUtf8Lossy bytes) :=
  segmented_decodeLossy le_rfl

-- The decoded text is what the sequences read.
theorem fromUtf8Lossy_eq {bytes : List UInt8} {segs : List (List UInt8)} {xs : List Char}
    (hsegs : Segmented bytes segs) (hxs : List.Forall₂ Reads segs xs) : fromUtf8Lossy bytes = xs := by
  obtain ⟨segs', hsegs', hall⟩ := segmented_fromUtf8Lossy bytes
  rw [segmented_unique hsegs' hsegs] at hall
  exact allReads_unique hall hxs

end Decoding

end Utf8
