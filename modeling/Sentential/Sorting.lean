/-!
# Sorting

Here the order may refuse a pair: `less a b` says whether `a` comes before `b`, or stops with a
fault.  Which pair is refused first depends on the way of sorting, so the way is a rule of its own.

* `firstRun`   elements at the beginning that ascend or descend are a run, and are not moved apart;
* `least`      a run that is too short is filled up, each further element being placed by halving;
* `push`       the runs are piled up; one merges with its left neighbour before the next comes, if
               their middles part later than those of it and the next when the list is halved
               again and again (`level`);
* `mergeAll`   at the end the pile is merged from its top.

`perm_sort`: nothing is lost and nothing is added.
-/

namespace Sentential

namespace Sorting

section
variable {α ε : Type} (less : α → α → Except ε Bool)

theorem eq_ok_of_bind {β γ : Type} {x : Except ε β} {f : β → Except ε γ} {c : γ}
    (h : x >>= f = .ok c) : ∃ b, x = .ok b ∧ f b = .ok c := by
  cases x with
  | error e => exact nomatch h
  | ok b => exact ⟨b, rfl, h⟩

/-! ## runs -/

/-- how many elements go on descending (or ascending) after the last one -/
def further (down : Bool) (last : α) : List α → Except ε Nat
  | [] => .ok 0
  | e :: es => do
    let d ← less e last
    if d = down then
      let n ← further down e es
      return n + 1
    else return 0

/-- the run that begins with an element, in ascending order, and how many of the others it takes -/
def firstRun (a : α) : List α → Except ε (List α × Nat)
  | [] => .ok ([a], 0)
  | b :: es => do
    let down ← less b a
    let n ← further less down b es
    let run := a :: b :: es.take n
    return (if down then run.reverse else run, n + 1)

theorem perm_firstRun {a : α} {es run : List α} {k : Nat}
    (h : firstRun less a es = .ok (run, k)) : run.Perm (a :: es.take k) := by
  cases es with
  | nil =>
    cases h
    exact .refl _
  | cons b es =>
    obtain ⟨down, _, h⟩ := eq_ok_of_bind h
    obtain ⟨n, _, h⟩ := eq_ok_of_bind h
    cases h
    cases down with
    | true => exact List.reverse_perm _
    | false => exact .refl _

/-- put an element into ascending ones, by comparing it with the one in the middle -/
def place (e : α) (es : List α) : Except ε (List α) :=
  match h : es.drop (es.length / 2) with
  | [] => .ok [e]
  | m :: right => do
    have hl := congrArg List.length h
    have : (es.take (es.length / 2)).length < es.length := by
      simp only [List.length_drop, List.length_cons, List.length_take] at hl ⊢
      omega
    have : right.length < es.length := by
      simp only [List.length_drop, List.length_cons] at hl
      omega
    let b ← less e m
    if b then
      let left ← place e (es.take (es.length / 2))
      return left ++ m :: right
    else
      let right ← place e right
      return es.take (es.length / 2) ++ m :: right
termination_by es.length

theorem perm_place {e : α} {es fs : List α} (h : place less e es = .ok fs) :
    fs.Perm (e :: es) := by
  fun_induction place less e es generalizing fs with
  | case1 es hd =>
    have hn : es = [] := by
      have := congrArg List.length hd
      simp only [List.length_drop, List.length_nil] at this
      exact List.eq_nil_of_length_eq_zero (by omega)
    cases h
    rw [hn]
  | case2 es m right hd hl _ _ ihl ihr =>
    obtain ⟨b, _, h⟩ := eq_ok_of_bind h
    have hes : es.take (es.length / 2) ++ m :: right = es := by
      rw [← hd, List.take_append_drop]
    cases b with
    | true =>
      obtain ⟨left, hp, h⟩ := eq_ok_of_bind h
      cases h
      exact ((ihl hp).append_right (m :: right)).trans (.of_eq (congrArg (e :: ·) hes))
    | false =>
      obtain ⟨right', hp, h⟩ := eq_ok_of_bind h
      cases h
      refine (((ihr hp).cons m).append_left _).trans ?_
      refine (((List.Perm.swap e m right).append_left _).trans List.perm_middle).trans ?_
      exact .of_eq (congrArg (e :: ·) hes)

def placeAll : List α → List α → Except ε (List α)
  | [], run => .ok run
  | e :: es, run => do
    let run ← place less e run
    placeAll es run

theorem perm_placeAll {es run fs : List α} (h : placeAll less es run = .ok fs) :
    fs.Perm (run ++ es) := by
  induction es generalizing run with
  | nil =>
    cases h
    exact .of_eq (List.append_nil _).symm
  | cons e es ih =>
    obtain ⟨s, hs, h⟩ := eq_ok_of_bind h
    refine (ih h).trans ?_
    exact ((perm_place less hs).append_right es).trans List.perm_middle.symm

/-- the least length of a run in a list of length `n`: the quotient, rounded up, by the power of two
that leaves less than 64 -/
def least (n : Nat) : Nat :=
  let p := Nat.pow 2 (n.log2 - 5)
  (n + p - 1) / p

/-! ## merging -/

def merge : List α → List α → Except ε (List α)
  | [], ys => .ok ys
  | x :: xs, [] => .ok (x :: xs)
  | x :: xs, y :: ys => do
    let b ← less y x
    if b then
      let zs ← merge (x :: xs) ys
      return y :: zs
    else
      let zs ← merge xs (y :: ys)
      return x :: zs
termination_by xs ys => xs.length + ys.length

theorem perm_merge {xs ys zs : List α} (h : merge less xs ys = .ok zs) : zs.Perm (xs ++ ys) := by
  fun_induction merge less xs ys generalizing zs with
  | case1 ys =>
    cases h
    exact .refl _
  | case2 x xs =>
    cases h
    exact .of_eq (List.append_nil _).symm
  | case3 x xs y ys ihl ihr =>
    obtain ⟨b, _, h⟩ := eq_ok_of_bind h
    cases b with
    | true =>
      obtain ⟨us, hu, h⟩ := eq_ok_of_bind h
      cases h
      exact ((ihl hu).cons y).trans List.perm_middle.symm
    | false =>
      obtain ⟨us, hu, h⟩ := eq_ok_of_bind h
      cases h
      exact (ihr hu).cons x

/-- runs from right to left; with each the level that parts it from the next one -/
abbrev Pile (α : Type) := List (Nat × List α)

def Pile.elements (p : Pile α) : List α := p.flatMap Prod.snd

/-- how often a list of length `n` is halved until two of its points, which are given by twice their
distances from the beginning, lie in different parts -/
def level (n a b : Nat) : Nat :=
  let parts j := a * Nat.pow 2 j / (2 * n) ≠ b * Nat.pow 2 j / (2 * n)
  ((List.range (n.log2 + 2)).find? fun j => parts j).getD 0

/-- merge the run on the top with the ones below it from which a deeper level parts it -/
def settle (l k : Nat) (run : List α) : Pile α → Except ε (Pile α)
  | [] => .ok [(k, run)]
  | (j, left) :: rest =>
    if l < k then do
      let merged ← merge less left run
      settle l j merged rest
    else .ok ((k, run) :: (j, left) :: rest)

theorem perm_settle {l k : Nat} {run : List α} {p q : Pile α}
    (h : settle less l k run p = .ok q) : q.elements.Perm (run ++ p.elements) := by
  induction p generalizing k run with
  | nil =>
    cases h
    exact .refl _
  | cons e rest ih =>
    obtain ⟨j, left⟩ := e
    unfold settle at h
    split at h
    · obtain ⟨merged, hm, h⟩ := eq_ok_of_bind h
      refine (ih h).trans ?_
      refine (((perm_merge less hm).trans List.perm_append_comm).append_right _).trans ?_
      exact .of_eq (List.append_assoc _ _ _)
    · cases h
      exact .refl _

/-- lay a run on the pile, when `c` of the `n` elements are on it -/
def push (n c : Nat) (run : List α) : Pile α → Except ε (Pile α)
  | [] => .ok [(0, run)]
  | (k, left) :: rest => do
    let l := level n (2 * c - left.length) (2 * c + run.length)
    let rest ← settle less l k left rest
    return (l, run) :: rest

theorem perm_push {n c : Nat} {run : List α} {p q : Pile α}
    (h : push less n c run p = .ok q) : q.elements.Perm (run ++ p.elements) := by
  cases p with
  | nil =>
    cases h
    exact .refl _
  | cons e rest =>
    obtain ⟨settled, hs, h⟩ := eq_ok_of_bind h
    cases h
    exact (perm_settle less hs).append_left run

/-- lay the runs of a list on the pile -/
def pushAll (n : Nat) (p : Pile α) : List α → Except ε (Pile α)
  | [] => .ok p
  | a :: es => do
    let (start, k) ← firstRun less a es
    let m := max k (least n - 1)
    let run ← placeAll less ((es.drop k).take (m - k)) start
    let p ← push less n (n - (es.length + 1)) run p
    pushAll n p (es.drop m)
termination_by es => es.length

theorem perm_pushAll {n : Nat} {p q : Pile α} {es : List α}
    (h : pushAll less n p es = .ok q) : q.elements.Perm (p.elements ++ es) := by
  fun_induction pushAll less n p es generalizing q with
  | case1 p =>
    cases h
    exact .of_eq (List.append_nil _).symm
  | case2 p a es ih =>
    obtain ⟨⟨start, k⟩, hf, h⟩ := eq_ok_of_bind h
    obtain ⟨run, hr, h⟩ := eq_ok_of_bind h
    obtain ⟨pile, hp, h⟩ := eq_ok_of_bind h
    have hk : k ≤ max k (least n - 1) := Nat.le_max_left ..
    have taken : es.take k ++ (es.drop k).take (max k (least n - 1) - k)
        = es.take (max k (least n - 1)) := by
      rw [← List.take_add, Nat.add_sub_cancel' hk]
    refine (ih k pile h).trans ?_
    have hrun : run.Perm (a :: es.take (max k (least n - 1))) := by
      refine (perm_placeAll less hr).trans ?_
      refine ((perm_firstRun less hf).append_right _).trans ?_
      exact .of_eq (congrArg (a :: ·) taken)
    refine (((perm_push less hp).trans List.perm_append_comm).append_right _).trans ?_
    refine ((hrun.append_left _).append_right _).trans ?_
    refine .of_eq ?_
    rw [List.append_assoc, List.cons_append, List.take_append_drop]

/-- merge a run with those to the left of it; if the second one there is shorter than the run, these
two come first -/
def mergeAll (run : List α) : List (List α) → Except ε (List α)
  | [] => .ok run
  | [left] => merge less left run
  | left :: third :: rest =>
    if third.length < run.length then do
      let merged ← merge less third left
      mergeAll run (merged :: rest)
    else do
      let merged ← merge less left run
      mergeAll merged (third :: rest)
termination_by lefts => lefts.length

theorem perm_mergeAll {run fs : List α} {lefts : List (List α)}
    (h : mergeAll less run lefts = .ok fs) : fs.Perm (run ++ lefts.flatten) := by
  fun_induction mergeAll less run lefts generalizing fs with
  | case1 run =>
    cases h
    exact .of_eq (List.append_nil _).symm
  | case2 run left =>
    refine (perm_merge less h).trans (List.perm_append_comm.trans (.of_eq ?_))
    rw [List.flatten_singleton]
  | case3 run left third rest hlt ih =>
    obtain ⟨merged, hm, h⟩ := eq_ok_of_bind h
    refine (ih merged h).trans (List.Perm.append_left run ?_)
    refine (((perm_merge less hm).trans List.perm_append_comm).append_right _).trans (.of_eq ?_)
    rw [List.flatten_cons, List.flatten_cons, List.append_assoc]
  | case4 run left third rest hlt ih =>
    obtain ⟨merged, hm, h⟩ := eq_ok_of_bind h
    refine (ih merged h).trans ?_
    refine (((perm_merge less hm).trans List.perm_append_comm).append_right _).trans (.of_eq ?_)
    rw [@List.flatten_cons _ left, List.append_assoc]

def sort (es : List α) : Except ε (List α) := do
  match ← pushAll less es.length [] es with
  | [] => return []
  | (_, run) :: rest => mergeAll less run (rest.map Prod.snd)

theorem perm_sort {es fs : List α} (h : sort less es = .ok fs) : fs.Perm es := by
  obtain ⟨p, hp, h⟩ := eq_ok_of_bind h
  have hes := perm_pushAll less hp
  cases p with
  | nil =>
    cases h
    exact hes
  | cons e rest =>
    refine (perm_mergeAll less h).trans (.trans (.of_eq ?_) hes)
    rw [← List.flatMap_def]
    rfl

end

end Sorting

end Sentential
