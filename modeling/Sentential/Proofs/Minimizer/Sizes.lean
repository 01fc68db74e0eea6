import Mathlib.Data.Fintype.Defs
import Mathlib.Data.Set.Card
import Mathlib.Data.Set.Finite.List
import Sentential.Proofs.Minimizer.Statistics

/-!
# The sizes of the generations count the implicants

The generations of a call are the implicants of the formula by the number of their free cells, so
their sizes are the numbers of implicants with no free cell, with one, and so on.  A row has several
pairs that merge to it but is counted once, and the last size is that of the last implicants: where
an implicant has a free cell, the rows with this cell fixed are implicants too.

* `implicantCount P n k`    the implicants with `k` free cells, counted;
* `Generation.length_eq`    the size of one generation;
* `sizes_generations`       all sizes from one generation on, by induction on the generations;
* `Formula.implicants f k`  said by evaluation, and `ncard_implicants` by lists of values;
* `request_counts_implicants`   the sizes that a session remembers after a call.
-/

namespace Sentential

/-! ## counting -/

/-- the number of rows of `n` cells, `k` of them free, that cover only values in `P` -/
noncomputable def implicantCount (P : List Bool → Prop) (n k : Nat) : Nat :=
  {x : Row | Implicant P n x ∧ x.freed = k}.ncard

section
variable {P : List Bool → Prop} {n k : Nat} {rows : List Row}

theorem Generation.length_eq (h : Generation P n k rows) : rows.length = implicantCount P n k := by
  have hset : {x : Row | Implicant P n x ∧ x.freed = k} = (rows.toFinset : Set Row) := by
    ext x
    rw [Set.mem_ofPred_eq, ← h.mem_iff, Finset.mem_coe, List.mem_toFinset]
  rw [implicantCount, hset, Set.ncard_coe_finset, List.toFinset_card_of_nodup h.nodup]

theorem Generation.implicantCount_eq_zero (h : Generation P n k []) (i : Nat) (hi : k ≤ i) :
    implicantCount P n i = 0 := by
  have hset : {x : Row | Implicant P n x ∧ x.freed = i} = ∅ := by
    refine Set.eq_empty_of_forall_notMem fun x hx => ?_
    have := h.freed_lt x hx.1
    have := hx.2
    omega
  rw [implicantCount, hset, Set.ncard_empty]

/-- the sizes are the counts as long as there are implicants, and there are none beyond them -/
theorem sizes_generations (h : Generation P n k rows) :
    ∃ j, (generations rows).map List.length = (List.range' k j).map (implicantCount P n)
      ∧ (∀ i, k ≤ i → i < k + j → 0 < implicantCount P n i)
      ∧ ∀ i, k + j ≤ i → implicantCount P n i = 0 := by
  induction rows using generations.induct generalizing k with
  | case1 =>
    refine ⟨0, ?_, fun i hi hlt => absurd hlt (by omega), h.implicantCount_eq_zero⟩
    rw [generations_nil]
    rfl
  | case2 x rows ih =>
    obtain ⟨j, hsizes, hpos, hzero⟩ := ih (generation_following h)
    refine ⟨j + 1, ?_, fun i hi hlt => ?_, fun i hi => hzero i (by omega)⟩
    · rw [generations_cons, List.map_cons, hsizes, h.length_eq, List.range'_succ, List.map_cons]
    · rcases Nat.eq_or_lt_of_le hi with rfl | hi
      · rw [← h.length_eq]
        exact Nat.succ_pos _
      · exact hpos i hi (by omega)

end

instance : Fintype Cell := ⟨{.on, .off, .free}, fun c => by cases c <;> decide⟩

namespace Formula

/-- the implicants with `k` free cells -/
def implicants (f : Formula) (k : Nat) : Set Row := {x | f.IsImplicant x ∧ x.freed = k}

theorem finite_implicants (f : Formula) (k : Nat) : (f.implicants k).Finite :=
  (List.finite_length_eq Cell f.names.length).subset fun _ hx => hx.1.1

theorem ncard_implicants (f : Formula) (k : Nat) :
    (f.implicants k).ncard = implicantCount f.Holds f.names.length k := by
  unfold implicants implicantCount
  simp only [isImplicant_iff]

end Formula

namespace Minimizer

theorem generationSizes_nil : generationSizes [] = [] := by
  rw [generationSizes, history, List.eraseDups_nil, generations_nil]
  rfl

theorem describes_of_answer (m : Minimizer) (f : Formula) (kvs : List (String × Datum))
    (rows : List Row) (h : (m.request (.formula f) kvs).answer = .ok rows) :
    Describes (m.request (.formula f) kvs).state f (trueRows f) := by
  cases hk : Options.checkNames kvs with
  | error e =>
    rw [request_of_checkNames_error m _ kvs e hk] at h
    cases h
  | ok u =>
    rw [request_of_checkNames m _ kvs hk] at h ⊢
    rcases describes_call m (.formula f) kvs with ⟨⟨e, he⟩, _⟩ | ⟨g, hg, _, hdescribes⟩
    · rw [h] at he
      cases he
    · cases hg
      exact hdescribes

/-- the sizes of a call for a formula with symbols and at least one true row -/
theorem generationSizes_trueRows (f : Formula) (hf : f.names ≠ []) (hrows : trueRows f ≠ []) :
    ∃ k, IsGreatest {i | 0 < (f.implicants i).ncard} k
      ∧ generationSizes (trueRows f)
        = (List.range (k + 1)).map fun i => (f.implicants i).ncard := by
  have hfirst := generation_eraseDups (mem_trueRows_iff_implicant f hf)
  rw [eraseDups_trueRows] at hfirst
  simp only [f.ncard_implicants]
  obtain ⟨j, hsizes, hpos, hzero⟩ := sizes_generations hfirst
  cases j with
  | zero =>
    have hlength := hfirst.length_eq.trans (hzero 0 (Nat.le_refl 0))
    exact absurd (List.eq_nil_of_length_eq_zero hlength) hrows
  | succ k =>
    refine ⟨k, ⟨hpos k (Nat.zero_le k) (by omega), fun i hi => ?_⟩, ?_⟩
    · refine Nat.le_of_not_lt fun hlt => ?_
      exact absurd (hzero i (by omega)) (Nat.pos_iff_ne_zero.mp hi)
    · rw [generationSizes, history, eraseDups_trueRows, hsizes, List.range_eq_range']

/-- **The sizes of the generations count the implicants.**  After a call that succeeded, whatever
the options and the session before it, the sizes are the numbers of implicants of the formula with
no free cell, with one free cell, and so on up to the largest number of free cells that an implicant
has.  Without symbols or without true rows there are no sizes. -/
theorem request_counts_implicants (m : Minimizer) (f : Formula) (kvs : List (String × Datum))
    (rows : List Row) (h : (m.request (.formula f) kvs).answer = .ok rows) :
    ∃ sizes, (m.request (.formula f) kvs).state.generations = some sizes
      ∧ (∀ i, (f.implicants i).Finite)
      ∧ (f.names = [] ∨ f.truthTable.trueRows = [] → sizes = [])
      ∧ (f.names ≠ [] → f.truthTable.trueRows ≠ [] →
        ∃ k, IsGreatest {i | 0 < (f.implicants i).ncard} k
          ∧ sizes = (List.range (k + 1)).map fun i => (f.implicants i).ncard) := by
  refine ⟨_, (describes_of_answer m f kvs rows h).generations, f.finite_implicants, ?_, ?_⟩
  · intro hnone
    have hrows : trueRows f = [] := by
      rcases hnone with hf | htable
      · exact trueRows_eq_nil f hf
      · rw [trueRows, htable, List.map_nil]
    rw [hrows, generationSizes_nil]
  · intro hf htable
    refine generationSizes_trueRows f hf fun hrows => htable ?_
    exact List.map_eq_nil_iff.mp hrows

theorem request_counts_implicants_of_or :
    let x : Formula := .symbol ⟨"X", by decide⟩
    let f : Formula := .or x (.symbol ⟨"Y", by decide⟩)
    let kvs := [("max_symbols", .int 2)]
    ∃ rows k, ((fresh 30).request (.formula f) kvs).answer = .ok rows
      ∧ IsGreatest {i | 0 < (f.implicants i).ncard} k
      ∧ ((fresh 30).request (.formula f) kvs).state.generations
        = some ((List.range (k + 1)).map fun i => (f.implicants i).ncard) := by
  intro x f kvs
  have hshort := Options.checkLength_of_lt (by decide : Int.natAbs 2 < 10)
  have hrun : (fresh 30).request (.formula f) kvs = _ :=
    run_of_bounded 30 0 (.formula f) _ rfl hshort f rfl (by decide)
  have hanswer : ((fresh 30).request (.formula f) kvs).answer
      = .ok (primeImplicants (trueRows f)) := by
    rw [hrun]
  obtain ⟨sizes, hsizes, _, _, hcount⟩ := request_counts_implicants (fresh 30) f kvs _ hanswer
  obtain ⟨k, hk, rfl⟩ := hcount (by decide) (by decide)
  exact ⟨_, k, hanswer, hk, hsizes⟩

end Minimizer

end Sentential
