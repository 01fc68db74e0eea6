import Mathlib.Data.List.Induction
import Sentential.Proofs.Minimizer.History
import Sentential.Proofs.Minimizer.Order

/-!
# What a session remembers of its last call

A result that a session remembers is from the last call that began: this call succeeded, and the
symbols are those of its formula.  The sizes of the generations are from that call only as long as
no rows have been merged directly since.  A direct merge leaves the result as it is but replaces the
sizes by its own.

* `use_cases`               what a use that is no call can change;
* `Describes m f rows`      the memory of a call for `f`, but with the sizes of a run from `rows`;
* `describes_call`          what any end of a call leaves;
* `ResultOf`                which call of a history the memory is from, and what was done since;
* `ResultOf.use`, `resultOf_call`   one more use, which is no call or is one;
* `resultOf_after`          a whole history, by induction on its last use;
* `result_describes_call`   the symbols, the rows and the sizes beside a result;
* `merge_replaces_sizes`    the sizes beside a result that are not from its call.
-/

namespace Sentential.Minimizer

/-! ## uses that are no call -/

/-- a call that begins: no name of its options is taken -/
def Use.Begins : Use → Prop
  | .request _ kvs => Options.checkNames kvs = .ok ()
  | _ => False

/-- the rows of the last direct merge after this use, if they were `rows` before it -/
def Use.merged (rows : List Row) : Use → List Row
  | .merge direct => direct
  | _ => rows

/-- the rows of the last direct merge among the uses, or `rows` if there is none -/
def lastMerged (rows : List Row) (us : List Use) : List Row := us.foldl Use.merged rows

def generationSizes (rows : List Row) : List Nat := (history rows).map List.length

theorem Use.merged_of_ne (rows : List Row) (u : Use) (h : ∀ direct, u ≠ .merge direct) :
    u.merged rows = rows := by
  cases u with
  | merge direct => exact absurd rfl (h direct)
  | request x kvs => rfl
  | setLevel l => rfl
  | say level text => rfl

theorem lastMerged_of_not_mem (rows : List Row) (us : List Use)
    (h : ∀ direct, Use.merge direct ∉ us) : lastMerged rows us = rows := by
  induction us with
  | nil => rfl
  | cons u us ih =>
    have hu : u.merged rows = rows := u.merged_of_ne rows fun direct e =>
      h direct (e ▸ List.mem_cons_self ..)
    rw [lastMerged, List.foldl_cons, hu]
    exact ih fun direct hmem => h direct (List.mem_cons_of_mem _ hmem)

/-- a use that is no call sets the sizes, by a direct merge, or at most the level -/
theorem use_cases (m : Minimizer) (u : Use) (hu : ¬u.Begins) :
    (∃ direct, u = .merge direct ∧ m.use u = m.counted (generationSizes direct))
      ∨ (∀ rows, u.merged rows = rows) ∧ ∃ l, m.use u = m.setLevel l := by
  cases u with
  | request x kvs =>
    refine .inr ⟨fun _ => rfl, m.level, ?_⟩
    cases hk : Options.checkNames kvs with
    | error e =>
      rw [use, request_of_checkNames_error m x kvs e hk]
      rfl
    | ok _ => exact absurd hk hu
  | merge direct => exact .inl ⟨direct, rfl, rfl⟩
  | setLevel l => exact .inr ⟨fun _ => rfl, l, rfl⟩
  | say level text => exact .inr ⟨fun _ => rfl, m.level, state_say m level text⟩

theorem result_use (m : Minimizer) (u : Use) (hu : ¬u.Begins) : (m.use u).result = m.result := by
  rcases use_cases m u hu with ⟨direct, _, h⟩ | ⟨_, l, h⟩
  · rw [h]
    rfl
  · rw [h]
    rfl

/-- the memory of a call for `f`, but with the sizes of the generations of a run from `rows` -/
structure Describes (m : Minimizer) (f : Formula) (rows : List Row) : Prop where
  symbols : m.symbols = some f.names
  result : m.result = some (primeImplicants (trueRows f))
  generations : m.generations = some (generationSizes rows)

theorem Describes.use {m : Minimizer} {f : Formula} {rows : List Row} (h : Describes m f rows)
    (u : Use) (hu : ¬u.Begins) : Describes (m.use u) f (u.merged rows) := by
  rcases use_cases m u hu with ⟨direct, rfl, hstate⟩ | ⟨hrows, l, hstate⟩
  · rw [hstate]
    exact ⟨h.symbols, h.result, rfl⟩
  · rw [hstate, hrows]
    exact ⟨h.symbols, h.result, h.generations⟩

/-! ## calls -/

theorem use_of_checkNames (m : Minimizer) (x : Operand) (kvs : List (String × Datum))
    (h : Options.checkNames kvs = .ok ()) : m.use (.request x kvs) = (m.call x kvs).state := by
  rw [use, request_of_checkNames m x kvs h]

/-- a run fails and leaves no result, or it is for a formula, answers with the result and describes
it -/
theorem describes_run (saved : Level) (x : Operand) (o : Options) :
    ((∃ e, (run saved x o).answer = .error e) ∧ (run saved x o).state.result = none)
      ∨ ∃ f, x = .formula f ∧ (run saved x o).answer = .ok (primeImplicants (trueRows f))
        ∧ Describes (run saved x o).state f (trueRows f) := by
  -- of the ends of a run only success sets a result
  rcases run_cases x o with ⟨e, log, hrun⟩ | ⟨e, f, log, hrun⟩ | ⟨f, log, hx, hrun⟩
  · rw [hrun saved]
    exact .inl ⟨⟨e, rfl⟩, rfl⟩
  · rw [hrun saved]
    exact .inl ⟨⟨e, rfl⟩, rfl⟩
  · rw [hrun saved]
    exact .inr ⟨f, hx, rfl, rfl, rfl, rfl⟩

theorem describes_call (m : Minimizer) (x : Operand) (kvs : List (String × Datum)) :
    ((∃ e, (m.call x kvs).answer = .error e) ∧ (m.call x kvs).state.result = none)
      ∨ ∃ f, x = .formula f ∧ (m.call x kvs).answer = .ok (primeImplicants (trueRows f))
        ∧ Describes (m.call x kvs).state f (trueRows f) := by
  rw [call]
  cases Options.ofPairs kvs with
  | error e => exact .inl ⟨⟨e, rfl⟩, rfl⟩
  | ok o => exact describes_run m.level.effective x o

theorem describes_use_nil (m : Minimizer) (f : Formula) :
    Describes (m.use (.request (.formula f) [])) f (trueRows f) := by
  rw [use, request_nil]
  exact ⟨rfl, rfl, rfl⟩

/-! ## histories -/

theorem after_concat (m : Minimizer) (us : List Use) (u : Use) :
    m.after (us ++ [u]) = (m.after us).use u :=
  List.foldl_append ..

/-- of the uses `us` of a new session the last call that began is one for `f`, after the uses
`before` and before the uses `later`; it succeeded, and the memory is what it left -/
structure ResultOf (l : Level) (us before : List Use) (f : Formula) (kvs : List (String × Datum))
    (later : List Use) : Prop where
  history : us = before ++ .request (.formula f) kvs :: later
  begins : (Use.request (.formula f) kvs).Begins
  last : ∀ u ∈ later, ¬u.Begins
  answer : (((fresh l).after before).request (.formula f) kvs).answer
    = .ok (primeImplicants (trueRows f))
  describes : Describes ((fresh l).after us) f (lastMerged (trueRows f) later)

section
variable {l : Level} {us before later : List Use} {f : Formula} {kvs : List (String × Datum)}

/-- a use that is no call leaves the result to the call that it is from -/
theorem ResultOf.use (h : ResultOf l us before f kvs later) (u : Use) (hu : ¬u.Begins) :
    ResultOf l (us ++ [u]) before f kvs (later ++ [u]) := by
  refine ⟨?_, h.begins, fun v hv => ?_, h.answer, ?_⟩
  · rw [h.history, List.append_assoc, List.cons_append]
  · rcases List.mem_append.mp hv with hv | hv
    · exact h.last v hv
    · rw [List.mem_singleton.mp hv]
      exact hu
  · rw [after_concat, lastMerged, List.foldl_append]
    exact h.describes.use u hu

/-- a call leaves no result, or it is from this call, whatever was remembered before -/
theorem resultOf_call (x : Operand) (hbegins : (Use.request x kvs).Begins) :
    ((fresh l).after (us ++ [.request x kvs])).result = none
      ∨ ∃ f, ResultOf l (us ++ [.request x kvs]) us f kvs [] := by
  have hstate : (fresh l).after (us ++ [.request x kvs])
      = (((fresh l).after us).call x kvs).state := by
    rw [after_concat, use_of_checkNames _ x kvs hbegins]
  rw [hstate]
  refine (describes_call ((fresh l).after us) x kvs).imp And.right ?_
  rintro ⟨f, rfl, hanswer, hdescribes⟩
  refine ⟨f, rfl, hbegins, fun u hu => absurd hu List.not_mem_nil, ?_, ?_⟩
  · rw [request_of_checkNames _ _ kvs hbegins]
    exact hanswer
  · rw [hstate]
    exact hdescribes

end

/-- after any history a result is from a call -/
theorem resultOf_after (l : Level) (us : List Use) :
    ((fresh l).after us).result = none
      ∨ ∃ before f kvs later, ResultOf l us before f kvs later := by
  induction us using List.reverseRecOn with
  | nil => exact .inl rfl
  | append_singleton us u ih =>
    by_cases hu : u.Begins
    · cases u with
      | request x kvs =>
        refine (resultOf_call x hu).imp_right ?_
        rintro ⟨f, hf⟩
        exact ⟨us, f, kvs, [], hf⟩
      | merge rows => exact hu.elim
      | setLevel l => exact hu.elim
      | say level text => exact hu.elim
    · rw [after_concat, result_use _ u hu]
      refine ih.imp_right ?_
      rintro ⟨before, f, kvs, later, hf⟩
      exact ⟨before, f, kvs, later ++ [u], hf.use u hu⟩

/-! ## the statistics of a run -/

theorem eraseDups_trueRows (f : Formula) : (trueRows f).eraseDups = trueRows f := by
  by_cases hf : f.names = []
  · rw [trueRows_eq_nil f hf, List.eraseDups_nil]
  · have hsorted := sorted_trueRows f hf
    exact Row.eq_of_sorted (sorted_eraseDups _ hsorted) hsorted fun _ => List.mem_eraseDups

/-- the first generation of a call are the true rows of the truth table -/
theorem headD_generationSizes (f : Formula) :
    (generationSizes (trueRows f)).headD 0 = f.truthTable.trueRows.length := by
  have hlength : (trueRows f).length = f.truthTable.trueRows.length := List.length_map ..
  rw [generationSizes, history, eraseDups_trueRows, ← hlength]
  cases trueRows f with
  | nil => rw [generations_nil]; rfl
  | cons x rows => rw [generations_cons]; rfl

/-- **What a result says about the session.**  A result that a session remembers is the answer of
the last call that began, and the symbols are those of its formula, one for each cell of its rows.
The sizes of the generations are those of its run, which starts from the true rows of the truth
table, if no rows were merged directly since; otherwise they are those of the last such merge. -/
theorem result_describes_call (l : Level) (us : List Use) (rows : List Row)
    (h : ((fresh l).after us).result = some rows) :
    ∃ before f kvs later, us = before ++ .request (.formula f) kvs :: later
      ∧ (Use.request (.formula f) kvs).Begins ∧ (∀ u ∈ later, ¬u.Begins)
      ∧ (((fresh l).after before).request (.formula f) kvs).answer = .ok rows
      ∧ ((fresh l).after us).symbols = some f.names ∧ (∀ r ∈ rows, r.length = f.names.length)
      ∧ ((fresh l).after us).generations = some (generationSizes (lastMerged (trueRows f) later))
      ∧ ((∀ direct, Use.merge direct ∉ later) → ∃ sizes,
        ((fresh l).after us).generations = some sizes ∧ sizes = generationSizes (trueRows f)
          ∧ sizes.headD 0 = f.truthTable.trueRows.length) := by
  rcases resultOf_after l us with hnone | ⟨before, f, kvs, later, hf⟩
  · rw [hnone] at h
    exact nomatch h
  · obtain ⟨hsymbols, hresult, hsizes⟩ := hf.describes
    obtain rfl : primeImplicants (trueRows f) = rows := Option.some.inj (hresult.symm.trans h)
    refine ⟨before, f, kvs, later, hf.history, hf.begins, hf.last, hf.answer, hsymbols,
      length_of_mem_primeImplicants f, hsizes, fun hdirect => ⟨_, ?_, rfl, headD_generationSizes f⟩⟩
    rw [hsizes, lastMerged_of_not_mem _ _ hdirect]

/-- a call that failed, a direct merge before the call and a name that is taken after it -/
theorem result_describes_call_of_or :
    let x : Formula := .symbol ⟨"X", by decide⟩
    let f : Formula := .or x (.symbol ⟨"Y", by decide⟩)
    let us : List Use := [.request (.formula x) [("max_symbols", .int 0)], .merge [[.on], [.off]],
      .request (.formula f) [], .setLevel 5, .request (.formula x) [("self", .nothing)]]
    let m := (fresh 30).after us
    m.result = some (primeImplicants (trueRows f)) ∧ m.symbols = some f.names
      ∧ ∃ sizes, m.generations = some sizes ∧ sizes = generationSizes (trueRows f)
        ∧ sizes.headD 0 = f.truthTable.trueRows.length := by
  intro x f us m
  have hm : Describes m f (trueRows f) :=
    ((describes_use_nil _ f).use (.setLevel 5) id).use
      (.request (.formula x) [("self", .nothing)]) nofun
  obtain ⟨before, g, kvs, later, hus, hbegins, hlast, _, _, _, _, hsizes⟩ :=
    result_describes_call 30 us _ hm.result
  refine ⟨hm.result, hm.symbols, ?_⟩
  unfold us at hus
  -- the call for `f` is the third use, and two uses follow
  match before, hus with
  | [], hus =>
    cases hus
    exact absurd rfl (hlast (.request (.formula f) []) (by simp))
  | [_], hus => cases hus
  | [_, _], hus =>
    cases hus
    exact hsizes (by simp)
  | [_, _, _], hus => cases hus
  | [_, _, _, _], hus =>
    cases hus
    cases hbegins
  | _ :: _ :: _ :: _ :: _ :: before, hus => cases before <;> cases hus

/-- a direct merge leaves the result of the call for `X`, whose truth table has one true row, but
the sizes are its own and begin with its two rows -/
theorem merge_replaces_sizes :
    let f : Formula := .symbol ⟨"X", by decide⟩
    let m := (fresh 30).after [.request (.formula f) [], .merge [[.on], [.off]]]
    m.result = some [[.on]] ∧ m.symbols = some f.names ∧ m.generations = some [2, 1]
      ∧ generationSizes (trueRows f) = [1] ∧ f.truthTable.trueRows.length = 1 := by
  intro f m
  have hrows : trueRows f = [[.on]] := by decide
  have hprimes : primeImplicants [[.on]] = [[.on]] := by cbv
  have hcall : generationSizes [[.on]] = [1] := by cbv
  have hdirect : generationSizes [[.on], [.off]] = [2, 1] := by cbv
  have hm : Describes m f [[.on], [.off]] :=
    (describes_use_nil _ f).use (.merge [[.on], [.off]]) id
  refine ⟨?_, hm.symbols, ?_, ?_, by decide⟩
  · rw [hm.result, hrows, hprimes]
  · rw [hm.generations, hdirect]
  · rw [hrows, hcall]

end Sentential.Minimizer
