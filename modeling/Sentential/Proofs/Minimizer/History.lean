import Sentential.Proofs.Minimizer.Steps

/-!
# A session has no memory

A call forgets what the session remembered before it does anything else, and the level that it finds
decides nothing but the level that it leaves.  So the next call does not show what was done with the
session before.

* `Use`, `after`         what can be done with a session, and the session after a list of such uses;
* `SameMemory m k`       the sessions remember the same; their channels may have different levels;
* `sameMemory_call`      two sessions, one call: the same answer, messages and memory;
* `request_forgets`      a request after any history, beside the first request of a new session.  It
                         says the same of the call step by step (`steps`), where messages come one
                         by one and a failure may stop it between any two steps.
-/

namespace Sentential.Minimizer

/-! ## histories -/

inductive Use where
  | request (x : Operand) (kvs : List (String × Datum))
  | merge (rows : List Row)
  | setLevel (l : Level)
  | say (level text : Datum)

def use (m : Minimizer) : Use → Minimizer
  | .request x kvs => (m.request x kvs).state
  | .merge rows => (m.merge rows).state
  | .setLevel l => m.setLevel l
  | .say level text => (m.say level text).state

/-- the session after these uses, the first one first -/
def after (m : Minimizer) (us : List Use) : Minimizer := us.foldl use m

theorem state_say (m : Minimizer) (level text : Datum) : (m.say level text).state = m := by
  unfold say
  split
  · rfl
  · split
    · split <;> rfl
    · rfl

/-! ## memory -/

structure SameMemory (m k : Minimizer) : Prop where
  options : m.options = k.options
  symbols : m.symbols = k.symbols
  generations : m.generations = k.generations
  result : m.result = k.result
  tableTimed : m.tableTimed = k.tableTimed
  mergingTimed : m.mergingTimed = k.mergingTimed
  totalTimed : m.totalTimed = k.totalTimed

namespace SameMemory

theorem setLevel (m : Minimizer) (l : Level) : SameMemory m (m.setLevel l) :=
  ⟨rfl, rfl, rfl, rfl, rfl, rfl, rfl⟩

/-- the level is not part of the memory -/
theorem of_setLevel {m k : Minimizer} (l : Level) (h : m.setLevel l = k.setLevel l) :
    SameMemory m k := by
  have hm := setLevel m l
  rw [h] at hm
  exact ⟨hm.options, hm.symbols, hm.generations, hm.result, hm.tableTimed, hm.mergingTimed,
    hm.totalTimed⟩

end SameMemory

/-! ## two runs of a call -/

/-- what is left by calls on channels of different levels is the same but for the level -/
theorem run_alike (saved saved' : Level) (x : Operand) (o : Options) :
    (run saved x o).answer = (run saved' x o).answer ∧ (run saved x o).log = (run saved' x o).log
      ∧ ∀ l, (run saved x o).state.setLevel l = (run saved' x o).state.setLevel l := by
  rcases run_cases x o with ⟨e, log, hrun⟩ | ⟨e, f, log, hrun⟩ | ⟨f, log, _, hrun⟩
  · rw [hrun saved, hrun saved']
    exact ⟨rfl, rfl, fun _ => rfl⟩
  · rw [hrun saved, hrun saved']
    exact ⟨rfl, rfl, fun _ => rfl⟩
  · rw [hrun saved, hrun saved']
    exact ⟨rfl, rfl, fun _ => rfl⟩

theorem sameMemory_call (m k : Minimizer) (x : Operand) (kvs : List (String × Datum)) :
    (m.call x kvs).answer = (k.call x kvs).answer ∧ (m.call x kvs).log = (k.call x kvs).log
      ∧ SameMemory (m.call x kvs).state (k.call x kvs).state := by
  rw [call, call]
  cases Options.ofPairs kvs with
  | error e => exact ⟨rfl, rfl, .of_setLevel 0 rfl⟩
  | ok o =>
    obtain ⟨hanswer, hlog, hstate⟩ := run_alike m.level.effective k.level.effective x o
    exact ⟨hanswer, hlog, .of_setLevel 0 (hstate 0)⟩

/-! ## requests -/

/-- **A session has no memory.**  After any history a request is answered, and prints, as the first
request of a new session whose channel has the level 30.  If its call begins, it also leaves the
same memory, and the call step by step does the same; if it does not, because a name is taken, then
nothing changes. -/
theorem request_forgets (us : List Use) (x : Operand) (kvs : List (String × Datum)) :
    let m := (fresh 30).after us
    let first := (fresh 30).request x kvs
    (m.request x kvs).answer = first.answer ∧ (m.request x kvs).log = first.log
      ∧ (Options.checkNames kvs = .ok () →
        SameMemory (m.request x kvs).state first.state
          ∧ ∀ log, ∃ s, (steps x kvs).observe ⟨m, log⟩ = (first.answer, ⟨s, log ++ first.log⟩)
            ∧ SameMemory s first.state)
      ∧ ((∃ e, Options.checkNames kvs = .error e) → (m.request x kvs).state = m) := by
  intro m first
  cases hk : Options.checkNames kvs with
  | error e =>
    have hrefused (n : Minimizer) := request_of_checkNames_error n x kvs e hk
    rw [show first = _ from hrefused _, hrefused m]
    exact ⟨rfl, rfl, fun h => (nomatch h), fun _ => rfl⟩
  | ok u =>
    obtain ⟨hanswer, hlog, hmemory⟩ := sameMemory_call m (fresh 30) x kvs
    have hfirst : first = (fresh 30).call x kvs := request_of_checkNames _ x kvs hk
    rw [request_of_checkNames m x kvs hk, hfirst]
    refine ⟨hanswer, hlog, fun _ => ⟨hmemory, fun log => ?_⟩, fun ⟨e, he⟩ => (nomatch he)⟩
    refine ⟨_, ?_, hmemory⟩
    rw [observe_steps_eq_call x kvs m log, hanswer, hlog]

/-- a call that failed half-way, mergers outside of a call and a loud channel leave no trace -/
theorem request_forgets_failed_call :
    let f : Formula := .symbol ⟨"X", by decide⟩
    let us : List Use := [.request (.formula f) [("max_symbols", .int 0)], .merge [[.on], [.off]],
      .setLevel 5, .say (.int 50) (.text "done")]
    let kvs := [("log_level", .text "INFO")]
    let m := (fresh 30).after us
    m.symbols ≠ none ∧ m.generations ≠ none ∧ m.level = 5 ∧ Options.checkNames kvs = .ok ()
      ∧ (m.request (.formula f) kvs).log = ((fresh 30).request (.formula f) kvs).log
      ∧ SameMemory (m.request (.formula f) kvs).state
        ((fresh 30).request (.formula f) kvs).state := by
  intro f us kvs m
  have hbegins : Options.checkNames kvs = .ok () := rfl
  have hshort := Options.checkLength_of_lt (by decide : Int.natAbs 0 < 10)
  have hfailed : (fresh 30).request (.formula f) [("max_symbols", .int 0)] = _ :=
    run_of_exceeds 30 0 (.formula f) _ rfl hshort f rfl rfl
  have hm : m = (((fresh 30).request (.formula f) [("max_symbols", .int 0)]).state.merge
      [[.on], [.off]]).state.setLevel 5 := state_say _ _ _
  rw [hfailed] at hm
  have hsymbols : m.symbols ≠ none := by
    rw [hm]
    exact Option.some_ne_none _
  have hsizes : m.generations ≠ none := by
    rw [hm]
    exact Option.some_ne_none _
  have hlevel : m.level = 5 := by
    rw [hm]
    rfl
  obtain ⟨_, hlog, hbegun, _⟩ := request_forgets us (.formula f) kvs
  exact ⟨hsymbols, hsizes, hlevel, hbegins, hlog, (hbegun hbegins).1⟩

end Sentential.Minimizer
