import CodeIndex.Proofs.Vectors.Agreement

/-!
# The ranks of hits

Hits are ranked by the total order of their distances, which has a place for every NaN: the negative ones come before
all numbers and the positive ones behind them (`Single.standing`). A NaN is scored as the worst of all distances, so
numbers are meant to come first. They do exactly if there is no negative NaN, or nothing that it could push back
(`numbers_rank_first_iff`).
-/

namespace CodeIndex

/-- The place of a number among the NaNs: 0 for a negative NaN, 2 for a positive one, and 1 for a number. -/
def Single.standing (x : Single) : Nat :=
  if x.isNaN then if x.isNegative then 0 else 2 else 1

/-- The keys of the total order beyond those of the infinities are the NaNs. -/
theorem Single.standing_eq (x : Single) :
    x.standing = if x.totalKey < -0x7f800001 then 0 else if 0x7f800000 < x.totalKey then 2 else 1 := by
  unfold standing isNaN totalKey
  cases x.isNegative with
  | true =>
    simp only [decide_eq_true_eq, if_true]
    by_cases hnan : 0x7f800000 < x.magnitude
    · rw [if_pos hnan, if_pos (by omega)]
    · rw [if_neg hnan, if_neg (by omega), if_neg (by omega)]
  | false =>
    simp only [decide_eq_true_eq, Bool.false_eq_true, if_false]
    by_cases hnan : 0x7f800000 < x.magnitude
    · rw [if_pos hnan, if_neg (by omega), if_pos (by omega)]
    · rw [if_neg hnan, if_neg (by omega), if_neg (by omega)]

theorem Single.standing_mono {x y : Single} (h : x.totalKey ≤ y.totalKey) : x.standing ≤ y.standing := by
  rw [standing_eq, standing_eq]
  by_cases hlow : x.totalKey < -0x7f800001
  · rw [if_pos hlow]
    exact Nat.zero_le _
  · rw [if_neg hlow, if_neg (by omega : ¬y.totalKey < -0x7f800001)]
    by_cases hhigh : 0x7f800000 < x.totalKey
    · have hhigh' : 0x7f800000 < y.totalKey := by omega
      simp only [hhigh, hhigh', if_true, Nat.le_refl]
    · rw [if_neg hhigh]
      split <;> decide

theorem Single.isNaN_iff_standing {x : Single} : x.isNaN = true ↔ x.standing ≠ 1 := by
  unfold standing
  cases x.isNaN <;> cases x.isNegative <;> decide

namespace Vectors

/-! ## The order of hits -/

theorem Hit.standing_le_of_le {a b : Hit} (h : a.le b = true) : a.distance.standing ≤ b.distance.standing :=
  Single.standing_mono (Prod.Lex.monotone_fst a.place b.place ((Hit.le_iff a b).mp h))

/-- What is kept and what is cut off, one after the other: all hits in the order of their standing. -/
structure ByStanding (hits kept cut : List Hit) : Prop where
  perm : (kept ++ cut).Perm hits
  ascending : (kept ++ cut).Pairwise fun a b => a.distance.standing ≤ b.distance.standing

theorem byStanding_rank (hits : List Hit) (limit : Nat) :
    ByStanding hits (rank hits limit) ((hits.mergeSort Hit.le).drop limit) where
  perm := by
    rw [rank, List.take_append_drop]
    exact List.mergeSort_perm hits Hit.le
  ascending := by
    rw [rank, List.take_append_drop]
    exact (pairwise_mergeSort_hit hits).imp Hit.standing_le_of_le

/-! ## Numbers first -/

/-- No NaN is kept before a number, nor while a number is cut off. -/
structure NumbersFirst (hits kept : List Hit) : Prop where
  order : kept.Pairwise fun a b => a.distance.isNaN = true → b.distance.isNaN = true
  cutOff : ∀ cut, (kept ++ cut).Perm hits → (∃ a ∈ kept, a.distance.isNaN = true) →
    ∀ b ∈ cut, b.distance.isNaN = true

/-- A list in which no NaN stands before a number, parted in two. -/
theorem numbersFirst_of_pairwise {hits kept cut : List Hit} (hperm : (kept ++ cut).Perm hits)
    (h : (kept ++ cut).Pairwise fun a b => a.distance.isNaN = true → b.distance.isNaN = true) :
    NumbersFirst hits kept := by
  obtain ⟨horder, -, hacross⟩ := List.pairwise_append.mp h
  refine ⟨horder, fun cut' hperm' => ?_⟩
  rintro ⟨a, ha, hnan⟩ b hb
  have hcut : cut'.Perm cut := (List.perm_append_left_iff kept).mp (hperm'.trans hperm.symm)
  exact hacross a ha b (hcut.mem_iff.mp hb) hnan

/-- A NaN in front lets no number be among the hits. -/
theorem NumbersFirst.isNaN_of_head {hits kept cut : List Hit} {first : Hit} (h : NumbersFirst hits (first :: kept))
    (hperm : (first :: kept ++ cut).Perm hits) (hfirst : first.distance.isNaN = true) :
    ∀ a ∈ hits, a.distance.isNaN = true := by
  intro a ha
  rcases List.mem_append.mp (hperm.mem_iff.mpr ha) with hkept | hcut
  · rcases List.mem_cons.mp hkept with rfl | hrest
    · exact hfirst
    · exact (List.pairwise_cons.mp h.order).1 a hrest hfirst
  · exact h.cutOff cut hperm ⟨first, List.mem_cons_self, hfirst⟩ a hcut

/-- The first of all in the order of their standing has the least. -/
theorem ByStanding.standing_head_le {hits kept cut : List Hit} {first : Hit} (h : ByStanding hits (first :: kept) cut)
    {a : Hit} (ha : a ∈ hits) : first.distance.standing ≤ a.distance.standing := by
  rcases List.mem_cons.mp (h.perm.mem_iff.mpr ha) with rfl | hrest
  · exact Nat.le_refl _
  · exact (List.pairwise_cons.mp h.ascending).1 a hrest

/-- Hits are ranked in the order of their standing, and this puts numbers first exactly if nothing is kept, or no
distance is a negative NaN, or all of them are NaNs. -/
theorem numbers_rank_first_iff (hits : List Hit) (limit : Nat) :
    (∃ cut, ByStanding hits (rank hits limit) cut) ∧
      (NumbersFirst hits (rank hits limit) ↔
        limit = 0 ∨ (∀ a ∈ hits, a.distance.isNaN = true → a.distance.isNegative = false) ∨
          ∀ a ∈ hits, a.distance.isNaN = true) := by
  have hrank := byStanding_rank hits limit
  refine ⟨⟨_, hrank⟩, fun hfirst => ?_, ?_⟩
  · by_cases hnegative : ∃ a ∈ hits, a.distance.isNaN = true ∧ a.distance.isNegative = true
    · obtain ⟨a, ha, hnan, hneg⟩ := hnegative
      cases hkept : rank hits limit with
      | nil =>
        -- there is a hit, so none is asked for
        refine .inl ?_
        rw [rank, List.take_eq_nil_iff] at hkept
        refine hkept.resolve_right fun hnil => ?_
        have hsorted := (List.mergeSort_perm hits Hit.le).mem_iff.mpr ha
        rw [hnil] at hsorted
        cases hsorted
      | cons first kept =>
        rw [hkept] at hfirst hrank
        have hstanding := hrank.standing_head_le ha
        have hzero : a.distance.standing = 0 := by simp [Single.standing, hnan, hneg]
        exact .inr (.inr (hfirst.isNaN_of_head hrank.perm (Single.isNaN_iff_standing.mpr (by omega))))
    · refine .inr (.inl fun a ha hnan => ?_)
      rw [Bool.eq_false_iff]
      exact fun hneg => hnegative ⟨a, ha, hnan, hneg⟩
  · rintro (rfl | hpositive | hall)
    · refine ⟨.nil, fun cut _ => ?_⟩
      rintro ⟨a, ha, -⟩
      cases ha
    · -- without negative NaNs, what stands behind a NaN is one
      refine numbersFirst_of_pairwise hrank.perm (hrank.ascending.imp_of_mem fun {a b} ha hb hle hnan => ?_)
      have htwo : a.distance.standing = 2 := by
        simp [Single.standing, hnan, hpositive a (hrank.perm.mem_iff.mp ha) hnan]
      exact Single.isNaN_iff_standing.mpr (by omega)
    · refine numbersFirst_of_pairwise hrank.perm (hrank.ascending.imp_of_mem fun {a b} _ hb _ _ => ?_)
      exact hall b (hrank.perm.mem_iff.mp hb)

/-- A vector without a distance ranks before the one at distance zero, and pushes it out of a search for one hit. -/
theorem no_distance_ranks_first :
    let x : MemoryIndex := { metric := .cosine, collections := [("c",
      [("a", ⟨[⟨0x7f800000⟩, .zero], []⟩), ("b", ⟨[.one, .zero], []⟩)])] }
    let hits : List Hit := [⟨"a", .invalid, []⟩, ⟨"b", .zero, []⟩]
    Index.search x "c" [.one, .zero] 2 {} = .ok hits ∧ Index.search x "c" [.one, .zero] 1 {} = .ok (hits.take 1) ∧
      hits.map (Metric.cosine.score ·.distance) = [.zero, .one] ∧
      ¬NumbersFirst hits (rank hits 2) ∧ ¬NumbersFirst hits (rank hits 1) := by
  intro x hits
  have hdistances : x.metric.distance [.one, .zero] [⟨0x7f800000⟩, .zero] = .invalid ∧
      x.metric.distance [.one, .zero] [.one, .zero] = .zero := by decide +kernel
  have hhits : x.hits [.one, .zero] {} [("a", ⟨[⟨0x7f800000⟩, .zero], []⟩), ("b", ⟨[.one, .zero], []⟩)] = hits := by
    change [(⟨"a", _, []⟩ : Hit), ⟨"b", _, []⟩] = hits
    rw [hdistances.1, hdistances.2]
  have hrank : ∀ limit, rank hits limit = hits.take limit := fun limit => by
    rw [rank, List.mergeSort_of_pairwise]
    decide
  have hsearch : ∀ limit, Index.search x "c" [.one, .zero] limit {} = .ok (rank hits limit) := fun limit => by
    rw [← hhits]
    rfl
  have hperm : ∀ limit, (hits.take limit ++ hits.drop limit).Perm hits := fun limit => by
    rw [List.take_append_drop]
  have hnumber : ¬∀ a ∈ hits, a.distance.isNaN = true := by decide
  refine ⟨by rw [hsearch, hrank]; rfl, by rw [hsearch, hrank], by decide +kernel, fun hfirst => ?_, fun hfirst => ?_⟩
  · rw [hrank] at hfirst
    exact hnumber (hfirst.isNaN_of_head (hperm 2) (by decide))
  · rw [hrank] at hfirst
    exact hnumber (hfirst.isNaN_of_head (hperm 1) (by decide))

end Vectors

end CodeIndex
