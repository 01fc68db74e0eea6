import Sentential.Minimizer.Session
import Sentential.Proofs.Effect

/-!
# A call, step by step

`Minimizer.call` says at once what a call leaves behind.  Here a call is a sequence of steps on a
minimizer and on the messages that have been printed.  Any step may fail.  A message is printed or
not by the level that the channel has at that moment: the level of the options is set before the
first message, and the level that counted before the call is set again after the last step or the
failed one.

* `Minimizer.steps x kvs` the sequence; `attempt` is the part between the two changes of the level;
* `observe_announceAll`   the messages of the generations, by induction on the generations;
* `observe_restoring`     whatever the attempt does, the level is set again;
* `run_cases`             what a run can leave;
* `observe_steps_eq_call` answer, state and messages are those of `Minimizer.call`;
* `request_of_checkNames` a request is a call unless a name is taken.
-/

namespace Sentential.Minimizer

/-- a minimizer, and what its channel has printed so far -/
structure Console where
  minimizer : Minimizer
  printed : List Message

abbrev Action := Effect Console Fault

/-! ## what is changed -/

/-- forget the last call and keep the options of this one -/
def begun (m : Minimizer) (o : Options) : Minimizer := { fresh m.level with options := some o }

def named (m : Minimizer) (f : Formula) : Minimizer := { m with symbols := some f.names }

def counted (m : Minimizer) (sizes : List Nat) : Minimizer := { m with generations := some sizes }

def found (m : Minimizer) (primes : List Row) : Minimizer := { m with result := some primes }

theorem level_setLevel (m : Minimizer) (l : Level) : (m.setLevel l).level = l := rfl
theorem level_named (m : Minimizer) (f : Formula) : (m.named f).level = m.level := rfl

/-! ## steps -/

def current : Action Minimizer := do return (← get).minimizer

def change (g : Minimizer → Minimizer) : Action Unit :=
  modify fun c => { c with minimizer := g c.minimizer }

def emit (msg : Message) : Action Unit :=
  modify fun c => { c with printed := c.printed ++ Message.printed c.minimizer.level [msg] }

def openingMessage (o : Options) : Message := ⟨20, o.written⟩

/-- the level, and the first message if it can be written -/
def opening (x : Operand) (o : Options) : Action Formula := do
  let l ← o.level
  change fun m => m.setLevel l
  o.checkLength
  emit (openingMessage o)
  x.receive "fold"

/-- a formula with too many symbols is refused -/
def bounded (f : Formula) (o : Options) : Except Fault Unit :=
  if exceeds f.names.length o then .error (.tooManySymbols f.names.length o.maxSymbols) else .ok ()

def naming (f : Formula) (o : Options) : Action Unit := do
  change fun m => m.named f
  bounded f o

/-- one more generation -/
def announce (gen : List Row) : Action Unit := do
  change fun m => m.counted (m.generations.getD [] ++ [gen.length])
  let m ← current
  let count := (m.generations.getD []).length
  emit ⟨10, "generation " ++ toString count ++ ": " ++ toString gen.length ++ " rows"⟩

def announceAll : List (List Row) → Action Unit
  | [] => pure ()
  | gen :: gens => do
    announce gen
    announceAll gens

def mergeSteps (rows : List Row) : Action (List Row) := do
  change fun m => m.counted []
  announceAll (history rows)
  return leftOver (history rows)

/-- table and merging -/
def working (f : Formula) : Action (List Row) := do
  let rows := trueRows f
  change fun m => { m with tableTimed := true }
  emit (tableMessage rows.length f.names.length)
  let primes ← mergeSteps rows
  change fun m => { m.found primes with mergingTimed := true }
  emit (resultMessage primes.length)
  return primes

def attempt (x : Operand) (o : Options) : Action (List Row) := do
  let f ← opening x o
  naming f o
  working f

/-- the attempt, after which the level is set again that counted before -/
def restoring (x : Operand) (o : Options) : Action (List Row) := do
  let saved := (← current).level.effective
  try attempt x o finally change fun m => m.setLevel saved

def timed (x : Operand) (o : Options) : Action (List Row) := do
  let primes ← restoring x o
  change fun m => { m with totalTimed := true }
  return primes

def steps (x : Operand) (kvs : List (String × Datum)) : Action (List Row) := do
  change fun m => fresh m.level
  let o ← Options.ofPairs kvs
  change fun m => m.begun o
  timed x o

/-! ## the attempt -/

section
variable (x : Operand) (o : Options) (l : Level) (m : Minimizer) (log : List Message)
  (hl : o.level = .ok l)
include hl

theorem observe_opening (hc : o.checkLength = .ok ()) :
    (opening x o).observe ⟨m, log⟩
      = (x.receive "fold", ⟨m.setLevel l, log ++ Message.printed l [openingMessage o]⟩) := by
  rw [opening, hl, hc]
  rfl

/-- options that cannot be written fail after the level has been set -/
theorem observe_opening_of_error (e : Fault) (hc : o.checkLength = .error e) :
    (opening x o).observe ⟨m, log⟩ = (.error e, ⟨m.setLevel l, log⟩) := by
  rw [opening, hl, hc]
  rfl

end

theorem observe_naming (f : Formula) (o : Options) (m : Minimizer) (log : List Message) :
    (naming f o).observe ⟨m, log⟩ = (bounded f o, ⟨m.named f, log⟩) := rfl

theorem generationMessages_concat (sizes : List Nat) (n : Nat) :
    generationMessages (sizes ++ [n])
      = generationMessages sizes
        ++ [⟨10, "generation " ++ toString (sizes.length + 1) ++ ": " ++ toString n ++ " rows"⟩] :=
  List.mapIdx_concat

theorem observe_announce (gen : List Row) (m : Minimizer) (log : List Message)
    (sizes : List Nat) :
    (announce gen).observe
        ⟨m.counted sizes, log ++ Message.printed m.level (generationMessages sizes)⟩
      = (.ok (), ⟨m.counted (sizes ++ [gen.length]),
          log ++ Message.printed m.level (generationMessages (sizes ++ [gen.length]))⟩) := by
  have hlength : (sizes ++ [gen.length]).length = sizes.length + 1 := List.length_append ..
  rw [generationMessages_concat, Message.printed_append, ← List.append_assoc, ← hlength]
  rfl

/-- the messages are numbered on from the generations that have been announced -/
theorem observe_announceAll (gens : List (List Row)) (m : Minimizer) (log : List Message)
    (sizes : List Nat) :
    (announceAll gens).observe
        ⟨m.counted sizes, log ++ Message.printed m.level (generationMessages sizes)⟩
      = (.ok (), ⟨m.counted (sizes ++ gens.map List.length), log ++ Message.printed m.level
          (generationMessages (sizes ++ gens.map List.length))⟩) := by
  induction gens generalizing sizes with
  | nil =>
    rw [List.map_nil, List.append_nil]
    rfl
  | cons gen gens ih =>
    have hrest := ih (sizes ++ [gen.length])
    rw [List.append_assoc] at hrest
    rw [announceAll, Effect.observe_bind_ok _ _ _ _ _ (observe_announce gen m log sizes)]
    exact hrest

theorem observe_mergeSteps (rows : List Row) (m : Minimizer) (log : List Message) :
    (mergeSteps rows).observe ⟨m, log⟩
      = (.ok (primeImplicants rows), ⟨m.counted ((history rows).map List.length),
          log ++ Message.printed m.level
            (generationMessages ((history rows).map List.length))⟩) := by
  have hall := observe_announceAll (history rows) m log []
  have hstart : log ++ Message.printed m.level (generationMessages []) = log :=
    List.append_nil log
  rw [hstart, List.nil_append] at hall
  exact Effect.observe_bind_ok _ _ _ _ _ hall

/-- the minimizer when the work on a formula is done -/
def worked (m : Minimizer) (f : Formula) : Minimizer :=
  { (m.counted ((history (trueRows f)).map List.length)).found (primeImplicants (trueRows f)) with
    tableTimed := true
    mergingTimed := true }

def workMessages (f : Formula) : List Message :=
  tableMessage (trueRows f).length f.names.length
    :: generationMessages ((history (trueRows f)).map List.length)
    ++ [resultMessage (primeImplicants (trueRows f)).length]

theorem observe_working (f : Formula) (m : Minimizer) (log : List Message) :
    (working f).observe ⟨m, log⟩
      = (.ok (primeImplicants (trueRows f)),
          ⟨m.worked f, log ++ Message.printed m.level (workMessages f)⟩) := by
  have hmerge := observe_mergeSteps (trueRows f) { m with tableTimed := true }
    (log ++ Message.printed m.level [tableMessage (trueRows f).length f.names.length])
  rw [List.append_assoc, ← Message.printed_append, List.singleton_append] at hmerge
  rw [workMessages, Message.printed_append, ← List.append_assoc]
  exact Effect.observe_bind_ok _ _ _ _ _ hmerge

section
variable (x : Operand) (o : Options)

/-- an attempt goes no further than an opening that fails -/
theorem observe_attempt_of_error (c b : Console) (e : Fault)
    (h : (opening x o).observe c = (.error e, b)) : (attempt x o).observe c = (.error e, b) :=
  Effect.observe_bind_error (opening x o) _ c b e h

variable (l : Level) (m : Minimizer) (log : List Message) (f : Formula) (hl : o.level = .ok l)
  (hc : o.checkLength = .ok ()) (hx : x.receive "fold" = .ok f)
include hl hc hx

theorem observe_attempt_eq_naming :
    (attempt x o).observe ⟨m, log⟩ = (naming f o >>= fun _ => working f).observe
      ⟨m.setLevel l, log ++ Message.printed l [openingMessage o]⟩ := by
  have hopening := observe_opening x o l m log hl hc
  rw [hx] at hopening
  exact Effect.observe_bind_ok (opening x o) _ _ _ f hopening

theorem observe_attempt_of_exceeds (hb : exceeds f.names.length o = true) :
    (attempt x o).observe ⟨m, log⟩
      = (.error (.tooManySymbols f.names.length o.maxSymbols),
          ⟨(m.setLevel l).named f, log ++ Message.printed l [openingMessage o]⟩) := by
  have hnaming := observe_naming f o (m.setLevel l) (log ++ Message.printed l [openingMessage o])
  rw [bounded, if_pos hb] at hnaming
  rw [observe_attempt_eq_naming x o l m log f hl hc hx]
  exact Effect.observe_bind_error (naming f o) _ _ _ _ hnaming

theorem observe_attempt_of_bounded (hb : ¬exceeds f.names.length o = true) :
    (attempt x o).observe ⟨m, log⟩
      = (.ok (primeImplicants (trueRows f)), ⟨((m.setLevel l).named f).worked f,
          log ++ Message.printed l ([openingMessage o] ++ workMessages f)⟩) := by
  have hnaming := observe_naming f o (m.setLevel l) (log ++ Message.printed l [openingMessage o])
  rw [bounded, if_neg hb] at hnaming
  rw [observe_attempt_eq_naming x o l m log f hl hc hx,
    Effect.observe_bind_ok _ _ _ _ () hnaming, observe_working, level_named, level_setLevel,
    List.append_assoc, ← Message.printed_append]

end

/-! ## around the attempt -/

/-- whatever the attempt does, the level is set again -/
theorem observe_restoring (x : Operand) (o : Options) (m b : Minimizer)
    (log printed : List Message) (r : Except Fault (List Row))
    (hr : (attempt x o).observe ⟨m, log⟩ = (r, ⟨b, printed⟩)) :
    (restoring x o).observe ⟨m, log⟩ = (r, ⟨b.setLevel m.level.effective, printed⟩) :=
  Effect.observe_tryFinally _ (change fun c => c.setLevel m.level.effective) _ _ _ _ hr rfl

section
variable (x : Operand) (kvs : List (String × Datum)) (o : Options) (m b : Minimizer)
  (log printed : List Message) (ho : Options.ofPairs kvs = .ok o)
include ho

theorem observe_steps_of_error (e : Fault)
    (hr : (attempt x o).observe ⟨m.begun o, log⟩ = (.error e, ⟨b, printed⟩)) :
    (steps x kvs).observe ⟨m, log⟩ = (.error e, ⟨b.setLevel m.level.effective, printed⟩) := by
  rw [steps, ho]
  show (timed x o).observe ⟨m.begun o, log⟩ = _
  exact Effect.observe_bind_error (restoring x o) _ _ _ e (observe_restoring x o _ b log _ _ hr)

theorem observe_steps_of_ok (primes : List Row)
    (hr : (attempt x o).observe ⟨m.begun o, log⟩ = (.ok primes, ⟨b, printed⟩)) :
    (steps x kvs).observe ⟨m, log⟩
      = (.ok primes, ⟨{ b.setLevel m.level.effective with totalTimed := true }, printed⟩) := by
  rw [steps, ho]
  show (timed x o).observe ⟨m.begun o, log⟩ = _
  exact Effect.observe_bind_ok (restoring x o) _ _ _ primes
    (observe_restoring x o _ b log _ _ hr)

end

/-! ## agreement -/

section
variable (saved l : Level) (x : Operand) (o : Options) (hl : o.level = .ok l)
include hl

theorem run_of_checkLength_error (e : Fault) (hc : o.checkLength = .error e) :
    run saved x o = ⟨.error e, (fresh saved).begun o, []⟩ := by
  rw [run, hl, hc]
  rfl

variable (hc : o.checkLength = .ok ())
include hc

theorem run_of_receive_error (e : Fault) (hx : x.receive "fold" = .error e) :
    run saved x o = ⟨.error e, (fresh saved).begun o, Message.printed l [openingMessage o]⟩ := by
  rw [run, hl, hc, hx]
  rfl

theorem run_of_exceeds (f : Formula) (hx : x.receive "fold" = .ok f)
    (hb : exceeds f.names.length o = true) :
    run saved x o = ⟨.error (.tooManySymbols f.names.length o.maxSymbols),
      ((fresh saved).begun o).named f, Message.printed l [openingMessage o]⟩ := by
  rw [run, hl, hc, hx]
  exact if_pos hb

theorem run_of_bounded (f : Formula) (hx : x.receive "fold" = .ok f)
    (hb : ¬exceeds f.names.length o = true) :
    run saved x o = ⟨.ok (primeImplicants (trueRows f)),
      { (((fresh saved).begun o).named f).worked f with totalTimed := true },
      Message.printed l ([openingMessage o] ++ workMessages f)⟩ := by
  rw [run, hl, hc, hx]
  exact if_neg hb

end

/-- the ends of a run by what they leave: the options, or the symbols too, or everything -/
theorem run_cases (x : Operand) (o : Options) :
    (∃ e log, ∀ saved, run saved x o = ⟨.error e, (fresh saved).begun o, log⟩)
      ∨ (∃ e f log, ∀ saved, run saved x o = ⟨.error e, ((fresh saved).begun o).named f, log⟩)
      ∨ ∃ f log, x = .formula f ∧ ∀ saved, run saved x o = ⟨.ok (primeImplicants (trueRows f)),
        { (((fresh saved).begun o).named f).worked f with totalTimed := true }, log⟩ := by
  cases hl : o.level with
  | error e =>
    refine .inl ⟨e, [], fun saved => ?_⟩
    rw [run, hl]
    rfl
  | ok l =>
    cases hc : o.checkLength with
    | error e => exact .inl ⟨e, [], fun saved => run_of_checkLength_error saved l x o hl e hc⟩
    | ok _ =>
      cases x with
      | datum d => exact .inl ⟨_, _, fun saved => run_of_receive_error saved l _ o hl hc _ rfl⟩
      | formula f =>
        have hx := Operand.receive_formula f "fold"
        by_cases hb : exceeds f.names.length o = true
        · exact .inr (.inl ⟨_, f, _, fun saved => run_of_exceeds saved l _ o hl hc f hx hb⟩)
        · exact .inr (.inr ⟨f, _, rfl, fun saved => run_of_bounded saved l _ o hl hc f hx hb⟩)

theorem observe_steps_eq_run (x : Operand) (kvs : List (String × Datum)) (o : Options)
    (m : Minimizer) (log : List Message) (ho : Options.ofPairs kvs = .ok o) :
    (steps x kvs).observe ⟨m, log⟩
      = ((run m.level.effective x o).answer, ⟨(run m.level.effective x o).state,
          log ++ (run m.level.effective x o).log⟩) := by
  -- the cases are the places where an attempt can fail, in the order in which it reaches them
  cases hl : o.level with
  | error e =>
    have hr : (attempt x o).observe ⟨m.begun o, log⟩ = (.error e, ⟨m.begun o, log⟩) := by
      rw [attempt, opening, hl]
      rfl
    rw [observe_steps_of_error x kvs o m _ log _ ho e hr, run, hl, List.append_nil]
    rfl
  | ok l =>
    cases hc : o.checkLength with
    | error e =>
      have hopening := observe_opening_of_error x o l (m.begun o) log hl e hc
      have hr := observe_attempt_of_error x o _ _ e hopening
      rw [observe_steps_of_error x kvs o m _ log _ ho e hr,
        run_of_checkLength_error _ l x o hl e hc, List.append_nil]
      rfl
    | ok _ =>
      cases hx : x.receive "fold" with
      | error e =>
        have hopening := observe_opening x o l (m.begun o) log hl hc
        rw [hx] at hopening
        have hr := observe_attempt_of_error x o _ _ e hopening
        rw [observe_steps_of_error x kvs o m _ log _ ho e hr,
          run_of_receive_error _ l x o hl hc e hx]
        rfl
      | ok f =>
        by_cases hb : exceeds f.names.length o = true
        · have hr := observe_attempt_of_exceeds x o l (m.begun o) log f hl hc hx hb
          rw [observe_steps_of_error x kvs o m _ log _ ho _ hr,
            run_of_exceeds _ l x o hl hc f hx hb]
          rfl
        · have hr := observe_attempt_of_bounded x o l (m.begun o) log f hl hc hx hb
          rw [observe_steps_of_ok x kvs o m _ log _ ho _ hr,
            run_of_bounded _ l x o hl hc f hx hb]
          rfl

/-- the sequence of steps gives the answer, the state and the messages of a call -/
theorem observe_steps_eq_call (x : Operand) (kvs : List (String × Datum)) (m : Minimizer)
    (log : List Message) :
    (steps x kvs).observe ⟨m, log⟩
      = ((m.call x kvs).answer, ⟨(m.call x kvs).state, log ++ (m.call x kvs).log⟩) := by
  cases ho : Options.ofPairs kvs with
  | error e =>
    rw [steps, call, ho, List.append_nil]
    rfl
  | ok o =>
    rw [call, ho]
    exact observe_steps_eq_run x kvs o m log ho

/-! ## requests -/

theorem request_of_checkNames (m : Minimizer) (x : Operand) (kvs : List (String × Datum))
    (h : Options.checkNames kvs = .ok ()) : m.request x kvs = m.call x kvs := by
  rw [request, h]

theorem request_of_checkNames_error (m : Minimizer) (x : Operand) (kvs : List (String × Datum))
    (e : Fault) (h : Options.checkNames kvs = .error e) : m.request x kvs = ⟨.error e, m, []⟩ := by
  rw [request, h]

/-- without options nothing is refused -/
theorem request_nil (m : Minimizer) (f : Formula) :
    m.request (.formula f) [] = ⟨.ok (primeImplicants (trueRows f)),
      { (((fresh m.level.effective).begun .standard).named f).worked f with totalTimed := true },
      Message.printed 0 ([openingMessage .standard] ++ workMessages f)⟩ :=
  run_of_bounded m.level.effective 0 (.formula f) .standard rfl Options.checkLength_standard f rfl
    Bool.false_ne_true

end Sentential.Minimizer
