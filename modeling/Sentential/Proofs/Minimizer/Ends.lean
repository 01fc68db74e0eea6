import Sentential.Proofs.Minimizer.Statistics

/-!
# The ends of a call

A call stops at the first thing that is wrong: options that are not valid, then a level that is
none, then an integer among the options that is too long for the first message, then more symbols
than the bound.  Otherwise it answers.  Here the ends are told apart by the options as they were
given, without the steps of the call.  What an end leaves is told by the options and the formula;
the session before the call gives nothing but the level of its channel.

* `Options.Refused kvs e`   options that are not valid, and the fault for them;
* `Options.ofGiven kvs`     what counts of valid options: the last datum under each name;
* `Datum.IsLevel d`         the data that are levels;
* `Ends l f kvs`            the answers and states at the five ends;
* `Ends.call_eq`, `exists_ends`   a call has the end whose conditions hold, and those of one do;
* `Ends.forgets`            what no failure leaves;
* `Ends.tooManySymbols_iff`   when the fault is that there are too many symbols;
* `call_ends`               a call with any options, after anything that was done with the session.
-/

namespace Sentential

/-! ## options as they are given -/

namespace Options

/-- the first name that belongs to no option -/
def unknown? (kvs : List (String × Datum)) : Option String :=
  (kvs.map Prod.fst).find? fun k => k ≠ "log_level" ∧ k ≠ "max_symbols"

/-- the last datum under a name, or `d` if there is none -/
def given (k : String) (d : Datum) (kvs : List (String × Datum)) : Datum :=
  (kvs.reverse.lookup k).getD d

def update (o : Options) (kvs : List (String × Datum)) : Options :=
  ⟨given "log_level" o.logLevel kvs, given "max_symbols" o.maxSymbols kvs⟩

/-- what counts if all is valid -/
def ofGiven (kvs : List (String × Datum)) : Options := standard.update kvs

/-- options that are not valid: a name is unknown, or else the bound is negative or no integer -/
inductive Refused (kvs : List (String × Datum)) : Fault → Prop
  | unknown (k : String) (hk : unknown? kvs = some k) : Refused kvs (.unknownOption k)
  | negative (i : Int) (hk : unknown? kvs = none)
      (hi : (ofGiven kvs).maxSymbols.int? = some i) (hneg : i < 0) :
      Refused kvs (.naming (ofGiven kvs).maxSymbols (.negativeLimit (ofGiven kvs).maxSymbols))
  | incomparable (hk : unknown? kvs = none) (hbound : (ofGiven kvs).maxSymbols ≠ .nothing)
      (hi : (ofGiven kvs).maxSymbols.int? = none) :
      Refused kvs (.notOrdered (ofGiven kvs).maxSymbols.typeName "int")

def Valid (kvs : List (String × Datum)) : Prop := ∀ e, ¬Refused kvs e

theorem given_cons (k j : String) (d e : Datum) (kvs : List (String × Datum)) :
    given k d ((j, e) :: kvs) = given k (if k = j then e else d) kvs := by
  rw [given, given, List.reverse_cons, List.lookup_append]
  cases kvs.reverse.lookup k with
  | some v => rfl
  | none =>
    rw [lookup_cons_ite]
    by_cases h : k = j
    · rw [if_pos h, if_pos h]
      rfl
    · rw [if_neg h, if_neg h]
      rfl

theorem setAll_eq (o : Options) (kvs : List (String × Datum)) :
    o.setAll kvs = (unknown? kvs).elim (.ok (o.update kvs)) fun k => .error (.unknownOption k) := by
  fun_induction setAll o kvs with
  | case1 o => rfl
  | case2 o d kvs ih =>
    rw [ih, update, update, given_cons, given_cons]
    rfl
  | case3 o d kvs ih =>
    rw [ih, update, update, given_cons, given_cons]
    rfl
  | case4 o k d kvs hlevel hbound =>
    have hk : unknown? ((k, d) :: kvs) = some k := by
      rw [unknown?, List.map_cons, List.find?_cons_of_pos]
      simp
      exact ⟨hlevel, hbound⟩
    rw [hk]
    rfl

theorem ofPairs_of_unknown (kvs : List (String × Datum)) (k : String) (hk : unknown? kvs = some k) :
    ofPairs kvs = .error (.unknownOption k) := by
  rw [ofPairs, setAll_eq, hk]
  rfl

theorem ofPairs_of_known (kvs : List (String × Datum)) (hk : unknown? kvs = none) :
    ofPairs kvs = (checkLimit (ofGiven kvs).maxSymbols).map fun _ => ofGiven kvs := by
  rw [ofPairs, setAll_eq, hk]
  rfl

theorem Refused.ofPairs_eq {kvs : List (String × Datum)} {e : Fault} (h : Refused kvs e) :
    ofPairs kvs = .error e := by
  cases h with
  | unknown k hk => exact ofPairs_of_unknown kvs k hk
  | negative i hk hi hneg =>
    rw [ofPairs_of_known kvs hk, checkLimit_of_int? hi, if_pos hneg]
    rfl
  | incomparable hk hbound hi =>
    rw [ofPairs_of_known kvs hk, checkLimit_of_int?_eq_none hi hbound]
    rfl

theorem Valid.unknown?_eq_none {kvs : List (String × Datum)} (h : Valid kvs) :
    unknown? kvs = none := by
  cases hk : unknown? kvs with
  | none => rfl
  | some k => exact absurd (.unknown k hk) (h _)

theorem Valid.ofPairs_eq {kvs : List (String × Datum)} (h : Valid kvs) :
    ofPairs kvs = .ok (ofGiven kvs) := by
  have hk := h.unknown?_eq_none
  suffices hd : checkLimit (ofGiven kvs).maxSymbols = .ok () by
    rw [ofPairs_of_known kvs hk, hd]
    rfl
  cases hi : (ofGiven kvs).maxSymbols.int? with
  | some i => rw [checkLimit_of_int? hi, if_neg fun hneg => h _ (.negative i hk hi hneg)]
  | none =>
    by_cases hbound : (ofGiven kvs).maxSymbols = .nothing
    · rw [hbound]
      rfl
    · exact absurd (.incomparable hk hbound hi) (h _)

theorem valid_of_ofPairs {kvs : List (String × Datum)} {o : Options} (h : ofPairs kvs = .ok o) :
    Valid kvs :=
  fun _ he => nomatch h.symm.trans he.ofPairs_eq

end Options

/-! ## levels -/

def Level.names : List String :=
  ["CRITICAL", "FATAL", "ERROR", "WARN", "WARNING", "INFO", "DEBUG", "NOTSET"]

/-- a datum that counts as an integer, or one of the names of levels -/
inductive Datum.IsLevel : Datum → Prop
  | integer {d : Datum} (i : Int) (h : d.int? = some i) : d.IsLevel
  | name (s : String) (h : s ∈ Level.names) : IsLevel (.text s)

/-- the fault for a datum that is no level -/
def Level.refusal : Datum → Fault
  | .text s => .unknownLevel s
  | d => .naming d (.notLevel d)

theorem Level.ofName?_isSome_iff (s : String) : (ofName? s).isSome ↔ s ∈ names := by
  unfold ofName?
  split <;> simp_all [names]

theorem Datum.IsLevel.ofDatum_eq {d : Datum} (h : d.IsLevel) : ∃ l, Level.ofDatum d = .ok l := by
  cases h with
  | integer i hi =>
    cases d with
    | bool b => exact ⟨.truth b, rfl⟩
    | int n => exact ⟨.number n, rfl⟩
    | nothing => cases hi
    | text s => cases hi
    | list xs => cases hi
    | fields ks xs => cases hi
  | name s hs =>
    obtain ⟨l, hl⟩ := Option.isSome_iff_exists.mp ((Level.ofName?_isSome_iff s).mpr hs)
    refine ⟨l, ?_⟩
    rw [Level.ofDatum, hl]

theorem Level.ofDatum_eq_refusal {d : Datum} (h : ¬d.IsLevel) : ofDatum d = .error (refusal d) := by
  cases d with
  | text s =>
    have hs : ofName? s = none :=
      Option.not_isSome_iff_eq_none.mp fun hs => h (.name s ((ofName?_isSome_iff s).mp hs))
    rw [ofDatum, hs]
    rfl
  | bool b => exact absurd (.integer _ rfl) h
  | int n => exact absurd (.integer _ rfl) h
  | nothing => rfl
  | list xs => rfl
  | fields ks xs => rfl

theorem Fault.kind_naming_ne (d : Datum) (e : Fault) (h : e.kind ≠ .tooManySymbols) :
    (naming d e).kind ≠ .tooManySymbols := by
  rw [kind_naming]
  split
  · decide
  · exact h

theorem Level.kind_refusal_ne (d : Datum) : (refusal d).kind ≠ .tooManySymbols := by
  unfold refusal
  split
  · nofun
  · exact Fault.kind_naming_ne _ _ nofun

theorem Options.Refused.kind_ne {kvs : List (String × Datum)} {e : Fault} (h : Refused kvs e) :
    e.kind ≠ .tooManySymbols := by
  cases h with
  | unknown k hk => nofun
  | negative i hk hi hneg => exact Fault.kind_naming_ne _ _ nofun
  | incomparable hk hbound hi => nofun

namespace Minimizer

/-! ## the ends -/

/-- there is a bound, and the formula has more symbols -/
def Exceeded (o : Options) (f : Formula) : Prop :=
  ∃ i, o.maxSymbols.int? = some i ∧ i < f.names.length

theorem exceeds_iff (o : Options) (f : Formula) :
    exceeds f.names.length o = true ↔ Exceeded o f := by
  unfold exceeds Exceeded Options.limit?
  cases o.maxSymbols.int? with
  | none => simp
  | some i => simp

/-- the answers of calls for `f` with these options, and the states that they leave, if the channel
had the level `l` before.  The conditions of each end exclude those of the others. -/
inductive Ends (l : Level) (f : Formula) (kvs : List (String × Datum)) :
    Except Fault (List Row) → Minimizer → Prop
  | refused (e : Fault) (he : Options.Refused kvs e) : Ends l f kvs (.error e) (fresh l)
  | unlevelled (hvalid : Options.Valid kvs) (hl : ¬(Options.ofGiven kvs).logLevel.IsLevel) :
      Ends l f kvs (.error (Level.refusal (Options.ofGiven kvs).logLevel))
        { fresh l.effective with options := some (Options.ofGiven kvs) }
  | unwritten (hvalid : Options.Valid kvs) (hl : (Options.ofGiven kvs).logLevel.IsLevel)
      (hlong : (Options.ofGiven kvs).isLong = true) :
      Ends l f kvs (.error .tooLongToWrite)
        { fresh l.effective with options := some (Options.ofGiven kvs) }
  | exceeded (hvalid : Options.Valid kvs) (hl : (Options.ofGiven kvs).logLevel.IsLevel)
      (hshort : (Options.ofGiven kvs).isLong = false) (hb : Exceeded (Options.ofGiven kvs) f) :
      Ends l f kvs (.error (.tooManySymbols f.names.length (Options.ofGiven kvs).maxSymbols))
        { fresh l.effective with
          options := some (Options.ofGiven kvs)
          symbols := some f.names }
  /-- the rows are those of any session that is asked without options -/
  | answered (rows : List Row) (hvalid : Options.Valid kvs)
      (hl : (Options.ofGiven kvs).logLevel.IsLevel)
      (hshort : (Options.ofGiven kvs).isLong = false) (hb : ¬Exceeded (Options.ofGiven kvs) f)
      (hrows : ∀ k : Minimizer, (k.request (.formula f) []).answer = .ok rows) :
      Ends l f kvs (.ok rows)
        ⟨some (Options.ofGiven kvs), some f.names, some (generationSizes (trueRows f)), some rows,
          true, true, true, l.effective⟩

theorem exists_error_iff {α : Type} (e : Fault) (k : Kind) :
    (∃ d, (.error e : Except Fault α) = .error d ∧ d.kind = k) ↔ e.kind = k := by
  constructor
  · rintro ⟨d, hd, hk⟩
    rw [Except.error.inj hd, hk]
  · exact fun hk => ⟨e, rfl, hk⟩

namespace Ends
variable {l : Level} {f : Formula} {kvs : List (String × Datum)}
  {answer : Except Fault (List Row)} {s : Minimizer}

/-- a call has the end whose conditions hold, whatever was remembered before -/
theorem call_eq (m : Minimizer) (h : Ends m.level f kvs answer s) :
    (m.call (.formula f) kvs).answer = answer ∧ (m.call (.formula f) kvs).state = s := by
  have hx := Operand.receive_formula f "fold"
  rw [call]
  cases h with
  | refused e he =>
    rw [he.ofPairs_eq]
    exact ⟨rfl, rfl⟩
  | unlevelled hvalid hl =>
    rw [hvalid.ofPairs_eq]
    show (run _ _ _).answer = _ ∧ (run _ _ _).state = _
    rw [run, Options.level, Level.ofDatum_eq_refusal hl]
    exact ⟨rfl, rfl⟩
  | unwritten hvalid hl hlong =>
    obtain ⟨k, hk⟩ := hl.ofDatum_eq
    have hlength := Options.checkLength_eq_error hlong
    rw [hvalid.ofPairs_eq]
    show (run _ _ _).answer = _ ∧ (run _ _ _).state = _
    rw [run_of_checkLength_error _ k _ _ hk _ hlength]
    exact ⟨rfl, rfl⟩
  | exceeded hvalid hl hshort hb =>
    obtain ⟨k, hk⟩ := hl.ofDatum_eq
    have hlength := Options.checkLength_eq_ok hshort
    rw [hvalid.ofPairs_eq]
    show (run _ _ _).answer = _ ∧ (run _ _ _).state = _
    rw [run_of_exceeds _ k _ _ hk hlength f hx ((exceeds_iff _ f).mpr hb)]
    exact ⟨rfl, rfl⟩
  | answered rows hvalid hl hshort hb hrows =>
    obtain ⟨k, hk⟩ := hl.ofDatum_eq
    have hlength := Options.checkLength_eq_ok hshort
    obtain rfl : primeImplicants (trueRows f) = rows :=
      Except.ok.inj ((answer_request m f).symm.trans (hrows m))
    rw [hvalid.ofPairs_eq]
    show (run _ _ _).answer = _ ∧ (run _ _ _).state = _
    rw [run_of_bounded _ k _ _ hk hlength f hx fun he => hb ((exceeds_iff _ f).mp he)]
    exact ⟨rfl, rfl⟩

theorem forgets (h : Ends l f kvs answer s) (hfails : ∃ e, answer = .error e) :
    s.generations = none ∧ s.result = none
      ∧ s.tableTimed = false ∧ s.mergingTimed = false ∧ s.totalTimed = false := by
  cases h with
  | refused e he => exact ⟨rfl, rfl, rfl, rfl, rfl⟩
  | unlevelled hvalid hl => exact ⟨rfl, rfl, rfl, rfl, rfl⟩
  | unwritten hvalid hl hlong => exact ⟨rfl, rfl, rfl, rfl, rfl⟩
  | exceeded hvalid hl hshort hb => exact ⟨rfl, rfl, rfl, rfl, rfl⟩
  | answered rows hvalid hl hshort hb hrows => cases hfails.choose_spec

theorem tooManySymbols_iff (h : Ends l f kvs answer s) :
    (∃ e, answer = .error e ∧ e.kind = .tooManySymbols)
      ↔ Options.Valid kvs ∧ (Options.ofGiven kvs).logLevel.IsLevel
        ∧ (Options.ofGiven kvs).isLong = false ∧ Exceeded (Options.ofGiven kvs) f := by
  cases h with
  | refused e he =>
    rw [exists_error_iff]
    exact iff_of_false he.kind_ne fun hb => hb.1 e he
  | unlevelled hvalid hl =>
    rw [exists_error_iff]
    exact iff_of_false (Level.kind_refusal_ne _) fun hb => hl hb.2.1
  | unwritten hvalid hl hlong =>
    rw [exists_error_iff]
    exact iff_of_false nofun fun hb => Bool.false_ne_true (hb.2.2.1.symm.trans hlong)
  | exceeded hvalid hl hshort hb =>
    rw [exists_error_iff]
    exact iff_of_true rfl ⟨hvalid, hl, hshort, hb⟩
  | answered rows hvalid hl hshort hb hrows =>
    refine iff_of_false ?_ fun hex => hb hex.2.2.2
    rintro ⟨_, hanswer, _⟩
    cases hanswer

end Ends

/-- the conditions of one end hold -/
theorem exists_ends (l : Level) (f : Formula) (kvs : List (String × Datum)) :
    ∃ answer s, Ends l f kvs answer s := by
  by_cases hvalid : Options.Valid kvs
  · by_cases hl : (Options.ofGiven kvs).logLevel.IsLevel
    · cases hlength : (Options.ofGiven kvs).isLong with
      | true => exact ⟨_, _, .unwritten hvalid hl hlength⟩
      | false =>
        by_cases hb : Exceeded (Options.ofGiven kvs) f
        · exact ⟨_, _, .exceeded hvalid hl hlength hb⟩
        · exact ⟨_, _, .answered _ hvalid hl hlength hb fun k => answer_request k f⟩
    · exact ⟨_, _, .unlevelled hvalid hl⟩
  · obtain ⟨e, he⟩ := not_forall.mp hvalid
    exact ⟨_, _, .refused e (not_not.mp he)⟩

/-- a bound that is too long to be written is refused, although no formula exceeds it -/
theorem ends_of_long_bound (l : Level) (f : Formula) (n : Nat) (h : Nat.pow 10 4300 ≤ n) :
    Ends l f [("max_symbols", .int n)] (.error .tooLongToWrite)
      { fresh l.effective with options := some ⟨.int 0, .int n⟩ } := by
  have hlimit : Options.checkLimit (.int n) = .ok () := by
    rw [Options.checkLimit_of_int? rfl, if_neg (Int.not_lt.mpr (Int.natCast_nonneg n))]
  have hpairs : Options.ofPairs [("max_symbols", .int n)] = .ok ⟨.int 0, .int n⟩ := by
    rw [Options.ofPairs_of_known _ rfl]
    exact congrArg (Except.map _) hlimit
  have hlong : (Datum.int n).isLong = true := (Datum.isLong_int_iff n).mpr h
  refine .unwritten (Options.valid_of_ofPairs hpairs) (.integer 0 rfl) ?_
  rw [Options.isLong, Bool.or_eq_true]
  exact .inr hlong

theorem ends_call (m : Minimizer) (f : Formula) (kvs : List (String × Datum)) :
    Ends m.level f kvs (m.call (.formula f) kvs).answer (m.call (.formula f) kvs).state := by
  obtain ⟨answer, s, h⟩ := exists_ends m.level f kvs
  obtain ⟨hanswer, hstate⟩ := h.call_eq m
  rw [hanswer, hstate]
  exact h

end Minimizer

end Sentential
