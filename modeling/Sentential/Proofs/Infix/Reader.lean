import Sentential.Proofs.Infix.Token

/-!
# The infix form can be read back

A formula is read from the tokens of its infix form from left to right, one token after the other.
A `Reading` keeps the parts that still wait for a formula on their right, the nearest first, and the
formula that was read last, unless one is to come.  The parts and that formula are put together as
late as possible: when a connective that binds weaker, a closing parenthesis or the end is met.

* `settle s x k`      the formula `x` and the waiting parts `k`, once everything that binds stronger
                      than `s` has been put together;
* `Formula.ofShown?`  the reader: scan the text, take the tokens, settle what is left;
* `Delivers`          the invariant: tokens that were read have left a formula behind, up to
                      settling.  `delivers_enclosed` is the step to an argument,
                      `delivers_tokens` the induction on the formula;
* `ofShown?_shown`    the reader gives the formula back;
* `shown_eq_iff`      so different formulas are shown differently.
-/

namespace Sentential

/-! ## plain names -/

/-- the words that a style has for truth values and operators -/
def Style.words (s : Style) : List String :=
  [s.top, s.bottom, s.not, s.connective (.junction .and), s.connective (.junction .or),
    s.connective .implies, s.connective .equivalent]

example : Style.plain.words = ["T", "F", "not", "and", "or", "-->", "<-->"] := rfl

/-- a name without spaces and parentheses that is no word of the infix form -/
def Name.IsPlain (n : Name) : Prop := n.IsWord ∧ n.text ∉ Style.plain.words

instance (n : Name) : Decidable n.IsPlain :=
  inferInstanceAs (Decidable (n.IsWord ∧ n.text ∉ Style.plain.words))

/-- all names are plain -/
def Formula.IsPlain (f : Formula) : Prop := ∀ n ∈ f.names, n.IsPlain

instance (f : Formula) : Decidable f.IsPlain :=
  inferInstanceAs (Decidable (∀ n ∈ f.names, n.IsPlain))

theorem Name.IsPlain.toList_ne {n : Name} (h : n.IsPlain) (s : String)
    (hs : s ∈ Style.plain.words) : n.text.toList ≠ s.toList := by
  intro e
  exact h.2 (String.toList_inj.mp e ▸ hs)

/-! ## words -/

def Connective.ofWord? (w : List Char) : Option Connective :=
  [.junction .and, .junction .or, .implies, .equivalent].find? fun op =>
    (Style.plain.connective op).toList = w

theorem Connective.ofWord?_connective (op : Connective) :
    ofWord? (Style.plain.connective op).toList = some op := by
  rcases op with (_ | _) | _ | _ <;> decide

/-- the atom that a word stands for -/
def Formula.ofWord? (w : List Char) : Option Formula :=
  if w = Style.plain.top.toList then some .top
  else if w = Style.plain.bottom.toList then some .bottom
  else if String.ofList w ∈ Style.plain.words then none
  else (Name.ofText? (String.ofList w)).map .symbol

theorem Formula.ofWord?_text (n : Name) (h : n.IsPlain) :
    Formula.ofWord? n.text.toList = some (.symbol n) := by
  rw [ofWord?, if_neg (h.toList_ne _ (by decide)), if_neg (h.toList_ne _ (by decide)),
    String.ofList_toList, if_neg h.2, Name.ofText?_text]
  rfl

/-! ## reading -/

/-- a part of a formula that waits for the formula on its right -/
inductive Pending where
  | not
  | left (op : Connective) (l : Formula)
  | enter

/-- how strongly it binds that formula; a parenthesis waits until all else is put together -/
def Pending.strength : Pending → Nat
  | .not => 99
  | .left op _ => op.strength
  | .enter => 0

/-- put together what binds stronger than `s` -/
def settle (s : Nat) (x : Formula) : List Pending → Formula × List Pending
  | .not :: k => settle s (.not x) k
  | .left op l :: k => if s < op.strength then settle s (.binary op l x) k else (x, .left op l :: k)
  | k => (x, k)

structure Reading where
  pending : List Pending
  held : Option Formula

namespace Reading

/-- the reading after one more token, unless the token does not fit -/
def step : Reading → Token → Option Reading
  | ⟨k, none⟩, .enter => some ⟨.enter :: k, none⟩
  | ⟨k, none⟩, .word w =>
    if w = Style.plain.not.toList then some ⟨.not :: k, none⟩
    else (Formula.ofWord? w).map fun x => ⟨k, some x⟩
  | ⟨k, some x⟩, .word w =>
    (Connective.ofWord? w).map fun op =>
      ⟨.left op (settle op.strength x k).1 :: (settle op.strength x k).2, none⟩
  | ⟨k, some x⟩, .leave =>
    match settle 0 x k with
    | (y, .enter :: k) => some ⟨k, some y⟩
    | _ => none
  | _, _ => none

/-- the formula that has been read, if nothing waits any more -/
def formula? : Reading → Option Formula
  | ⟨k, some x⟩ =>
    match settle 0 x k with
    | (y, []) => some y
    | _ => none
  | ⟨_, none⟩ => none

theorem step_not (k : List Pending) :
    step ⟨k, none⟩ (.word Style.plain.not.toList) = some ⟨.not :: k, none⟩ := rfl

theorem step_symbol (k : List Pending) (n : Name) (h : n.IsPlain) :
    step ⟨k, none⟩ (.word n.text.toList) = some ⟨k, some (.symbol n)⟩ := by
  rw [step, if_neg (h.toList_ne _ (by decide)), Formula.ofWord?_text n h]
  rfl

theorem step_connective (k : List Pending) (x l : Formula) (k' : List Pending) (op : Connective)
    (h : settle op.strength x k = (l, k')) :
    step ⟨k, some x⟩ (.word (Style.plain.connective op).toList)
      = some ⟨.left op l :: k', none⟩ := by
  rw [step, Connective.ofWord?_connective, Option.map_some, h]

theorem step_leave (k : List Pending) (x y : Formula) (k' : List Pending)
    (h : settle 0 x k = (y, .enter :: k')) : step ⟨k, some x⟩ .leave = some ⟨k', some y⟩ := by
  rw [step, h]

end Reading

/-- the formula that is shown as `s` -/
def Formula.ofShown? (s : String) : Option Formula := do
  let r ← (scan [] s.toList).foldlM Reading.step ⟨[], none⟩
  r.formula?

/-! ## the invariant -/

/-- a formula of strength `p` may be read here: the nearest part binds no stronger -/
def Fits (k : List Pending) (p : Nat) : Prop := ∀ q ∈ k.head?, q.strength ≤ p

theorem fits_cons {q : Pending} {p : Nat} (h : q.strength ≤ p) (k : List Pending) :
    Fits (q :: k) p := fun _ hq => Option.some.inj hq ▸ h

theorem Fits.mono {k : List Pending} {p p' : Nat} (h : Fits k p) (hp : p ≤ p') : Fits k p' :=
  fun q hq => Nat.le_trans (h q hq) hp

theorem Connective.strength_pos (op : Connective) : 0 < op.strength := by
  rcases op with _ | _ | _ <;> simp [strength]

theorem Connective.strength_lt (op : Connective) : op.strength < 99 := by
  rcases op with _ | _ | _ <;> simp [strength]

theorem Formula.strength_pos (f : Formula) : 0 < f.strength := by
  cases f with
  | binary op l r => exact op.strength_pos
  | _ => exact Nat.succ_pos 98

theorem settle_of_fits {k : List Pending} {p : Nat} (h : Fits k p) (hp : p < 99) (x : Formula) :
    settle p x k = (x, k) := by
  cases k with
  | nil => rfl
  | cons q k =>
    have hq : q.strength ≤ p := h q rfl
    cases q with
    | not => exact absurd hq (Nat.not_le_of_lt hp)
    | left op l => exact if_neg (Nat.not_lt_of_le hq)
    | enter => rfl

/-- tokens that are read where a formula is to come leave `f` there; what binds at least as strong
as `bound` may have been left to be put together -/
def Delivers (ts : List Token) (k : List Pending) (f : Formula) (bound : Nat) : Prop :=
  ∃ k' x, ts.foldlM Reading.step ⟨k, none⟩ = some ⟨k', some x⟩
    ∧ ∀ s < bound, settle s x k' = settle s f k

theorem delivers_of_step {t : Token} {k : List Pending} {f : Formula} (bound : Nat)
    (h : Reading.step ⟨k, none⟩ t = some ⟨k, some f⟩) : Delivers [t] k f bound := by
  refine ⟨k, f, ?_, fun _ _ => rfl⟩
  rw [List.foldlM_cons, h]
  rfl

/-- an argument is delivered, with parentheses around it or without -/
theorem delivers_enclosed {f : Formula} {k : List Pending} {p : Nat} {b : Bool}
    (hf : ∀ k, Fits k f.strength → Delivers f.tokens k f f.strength) (hk : Fits k p)
    (hb : b = false → p ≤ f.strength) : Delivers (enclosed b f.tokens) k f p := by
  cases b with
  | false =>
    obtain ⟨k', x, hfold, hsettle⟩ := hf k (hk.mono (hb rfl))
    exact ⟨k', x, hfold, fun s hs => hsettle s (Nat.lt_of_lt_of_le hs (hb rfl))⟩
  | true =>
    obtain ⟨k', x, hfold, hsettle⟩ := hf (.enter :: k) (fits_cons (Nat.zero_le _) k)
    -- the opening parenthesis keeps the parts outside apart, so the closing one finds `f` alone
    have hleave : settle 0 x k' = (f, .enter :: k) := hsettle 0 f.strength_pos
    refine ⟨k, f, ?_, fun _ _ => rfl⟩
    show List.foldlM Reading.step ⟨.enter :: k, none⟩ (f.tokens ++ [.leave]) = _
    rw [List.foldlM_append, hfold]
    show List.foldlM Reading.step ⟨k', some x⟩ [.leave] = _
    rw [List.foldlM_cons, Reading.step_leave k' x f k hleave]
    rfl

/-- the tokens of a formula deliver it -/
theorem delivers_tokens (f : Formula) (hf : ∀ n ∈ f.occurrences, n.IsPlain) (k : List Pending)
    (hk : Fits k f.strength) : Delivers f.tokens k f f.strength := by
  induction f generalizing k with
  | top => exact delivers_of_step _ rfl
  | bottom => exact delivers_of_step _ rfl
  | symbol n =>
    exact delivers_of_step _ (Reading.step_symbol k n (hf n (List.mem_singleton.mpr rfl)))
  | not f ih =>
    have hnot : Fits (.not :: k) 99 := fits_cons (Nat.le_refl 99) k
    obtain ⟨k', x, hfold, hsettle⟩ := delivers_enclosed (b := f.strength < 99) (ih hf) hnot
      fun hb => Nat.le_of_not_lt (of_decide_eq_false hb)
    refine ⟨k', x, ?_, hsettle⟩
    rw [Formula.tokens, List.foldlM_cons, Reading.step_not]
    exact hfold
  | binary op l r ihl ihr =>
    have hp : op.strength ≤ op.strength + 1 := Nat.le_succ _
    have hop : Fits (.left op l :: k) (op.strength + 1) := fits_cons hp k
    have hl := ihl fun n hn => hf n (List.mem_append_left _ hn)
    have hr := ihr fun n hn => hf n (List.mem_append_right _ hn)
    obtain ⟨kl, x, hfoldl, hsettlel⟩ := delivers_enclosed (b := l.strength ≤ op.strength) hl
      (hk.mono hp) fun hb => Nat.gt_of_not_le (of_decide_eq_false hb)
    obtain ⟨kr, y, hfoldr, hsettler⟩ := delivers_enclosed (b := r.strength ≤ op.strength) hr hop
      fun hb => Nat.gt_of_not_le (of_decide_eq_false hb)
    -- the parts in `k` bind no stronger than `op`, so the connective finds `l` alone
    have hleft : settle op.strength x kl = (l, k) :=
      (hsettlel _ (Nat.lt_succ_self _)).trans (settle_of_fits hk op.strength_lt l)
    refine ⟨kr, y, ?_, fun s hs => ?_⟩
    · rw [Formula.tokens, List.foldlM_append, hfoldl]
      show List.foldlM Reading.step ⟨kl, some x⟩ (.word _ :: _) = _
      rw [List.foldlM_cons, Reading.step_connective kl x l k op hleft]
      exact hfoldr
    · rw [hsettler s (Nat.lt_succ_of_lt hs)]
      exact if_pos hs

/-! ## reading back -/

namespace Formula

theorem ofShown?_shown (f : Formula) (h : f.IsPlain) : ofShown? f.shown = some f := by
  have hplain (n : Name) (hn : n ∈ f.occurrences) : n.IsPlain := h n ((mem_names f n).mpr hn)
  obtain ⟨k, x, hfold, hsettle⟩ := delivers_tokens f hplain [] (fun _ hq => nomatch hq)
  have hend : settle 0 x k = (f, []) := hsettle 0 f.strength_pos
  rw [ofShown?, scan_shown f fun n hn => (hplain n hn).1, hfold]
  show Reading.formula? ⟨k, some x⟩ = some f
  rw [Reading.formula?, hend]

/-- **The infix form is unambiguous**: over plain names, two formulas are shown alike only if they
are the same, and the reader gives each of them back. -/
theorem shown_eq_iff (f g : Formula) (hf : f.IsPlain) (hg : g.IsPlain) :
    (f.shown = g.shown ↔ f = g) ∧ ofShown? f.shown = some f := by
  have hread := ofShown?_shown f hf
  refine ⟨⟨fun h => ?_, fun h => h ▸ rfl⟩, hread⟩
  rw [h, ofShown?_shown g hg] at hread
  exact (Option.some.inj hread).symm

/-- the places of the parentheses tell two formulas with the same words apart -/
theorem shown_ne_of_and_or :
    let x : Formula := .symbol ⟨"X", by decide⟩
    let y : Formula := .symbol ⟨"Y", by decide⟩
    let f : Formula := .and (.not (.or x y)) (.implies x y)
    let g : Formula := .and (.or (.not x) y) (.implies x y)
    f.IsPlain ∧ g.IsPlain ∧ f.shown ≠ g.shown ∧ ofShown? f.shown = some f := by
  intro x y f g
  have hf : f.IsPlain := by decide
  have hg : g.IsPlain := by decide
  obtain ⟨hiff, hread⟩ := shown_eq_iff f g hf hg
  exact ⟨hf, hg, fun h => absurd (hiff.mp h) (by decide), hread⟩

end Formula

end Sentential
