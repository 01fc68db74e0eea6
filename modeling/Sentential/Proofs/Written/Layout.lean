import Sentential.Formula.Layout

/-!
# The layout spells the written form

A formula has two recursions over its arguments that spell it, one for its written form and one for
the events of its layout.  Whatever line breaks a printer makes of the events, their texts are the
characters of the written form.

* `LayoutEvent.spelled e`   the characters of an event, where no line is broken;
* `LayoutEvent.Nested es`   every group among the events is left again, behind all that is in it;
* `layoutOnto_append`       the events of a formula do not depend on what follows them;
* `nested_layoutOnto`, `spelled_layoutOnto`, `length_of_enter_mem_layoutOnto`
                            what holds of events in front of a rest if it holds of the rest, by
                            induction on the formula: one lemma about groups for each;
* `layout_spells_written`   so the events of a formula are nested groups that spell it.
-/

namespace Sentential

namespace LayoutEvent

/-- the characters of an event; a line that is not broken has a space there -/
def spelled : LayoutEvent → List Char
  | .text s => s.toList
  | .breakable => [' ']
  | .enter _ s => s.toList
  | .leave _ s => s.toList

/-- every group is left again, with the indentation with which it was entered -/
inductive Nested : List LayoutEvent → Prop
  | nil : Nested []
  | text (s : String) {es : List LayoutEvent} (h : Nested es) : Nested (.text s :: es)
  | breakable {es : List LayoutEvent} (h : Nested es) : Nested (.breakable :: es)
  | group (indent : Nat) (s t : String) {es fs : List LayoutEvent} (hes : Nested es)
      (hfs : Nested fs) : Nested (.enter indent s :: (es ++ .leave indent t :: fs))

end LayoutEvent

namespace Formula
open LayoutEvent

/-! ## groups -/

section
variable (word : List Char) (body : List LayoutEvent → List LayoutEvent)

theorem groupOnto_append (hbody : ∀ r t, body (r ++ t) = body r ++ t) (r t : List LayoutEvent) :
    groupOnto word body (r ++ t) = groupOnto word body r ++ t := by
  rw [groupOnto, groupOnto, List.cons_append, ← hbody]
  rfl

theorem nested_groupOnto (happend : ∀ r t, body (r ++ t) = body r ++ t)
    (hbody : ∀ rest, Nested rest → Nested (body rest)) {rest : List LayoutEvent}
    (h : Nested rest) : Nested (groupOnto word body rest) := by
  have hcontent : body (.leave (word.length + 1) ")" :: rest)
      = body [] ++ .leave (word.length + 1) ")" :: rest := happend [] _
  rw [groupOnto, hcontent]
  exact .group _ _ _ (hbody [] .nil) h

theorem spelled_groupOnto (rest : List LayoutEvent) :
    (groupOnto word body rest).flatMap spelled
      = word ++ '(' :: (body (.leave (word.length + 1) ")" :: rest)).flatMap spelled := by
  rw [groupOnto, List.flatMap_cons, spelled, String.toList_ofList, List.append_assoc,
    List.singleton_append]

theorem length_of_enter_mem_groupOnto {i : Nat} {s : String} {rest : List LayoutEvent}
    (hbody : ∀ rest, .enter i s ∈ body rest → i = s.length ∨ .enter i s ∈ rest)
    (h : .enter i s ∈ groupOnto word body rest) : i = s.length ∨ .enter i s ∈ rest := by
  rcases List.mem_cons.mp h with heq | hmem
  · obtain ⟨rfl, rfl⟩ := LayoutEvent.enter.inj heq
    left
    rw [String.length_ofList, List.length_append, List.length_singleton]
  · rcases hbody _ hmem with hlength | hmem
    · exact .inl hlength
    · exact .inr ((List.mem_cons.mp hmem).resolve_left nofun)

end

/-! ## formulas -/

theorem layoutOnto_append (f : Formula) (r t : List LayoutEvent) :
    f.layoutOnto (r ++ t) = f.layoutOnto r ++ t := by
  induction f generalizing r t with
  | top => rfl
  | bottom => rfl
  | symbol n => exact groupOnto_append _ _ (fun _ _ => rfl) r t
  | not f ih => exact groupOnto_append _ _ ih r t
  | binary op a b iha ihb =>
    refine groupOnto_append _ _ (fun r t => ?_) r t
    rw [ihb, ← iha]
    rfl

theorem nested_layoutOnto (f : Formula) {rest : List LayoutEvent} (h : Nested rest) :
    Nested (f.layoutOnto rest) := by
  induction f generalizing rest with
  | top => exact .text _ h
  | bottom => exact .text _ h
  | symbol n => exact nested_groupOnto _ _ (fun _ _ => rfl) (fun _ hr => .text _ hr) h
  | not f ih => exact nested_groupOnto _ _ f.layoutOnto_append (fun _ hr => ih hr) h
  | binary op a b iha ihb =>
    refine nested_groupOnto _ _ (fun r t => ?_) (fun r hr => ?_) h
    · rw [b.layoutOnto_append, ← a.layoutOnto_append]
      rfl
    · exact iha (.text _ (.breakable (ihb hr)))

theorem spelled_layoutOnto (f : Formula) (rest : List LayoutEvent) :
    (f.layoutOnto rest).flatMap spelled = f.writtenOnto (rest.flatMap spelled) := by
  induction f generalizing rest with
  | top => rfl
  | bottom => rfl
  | symbol n =>
    rw [layoutOnto, spelled_groupOnto, List.flatMap_cons, spelled, Text.quote_toList,
      ← Text.quoteOnto_eq]
    rfl
  | not f ih =>
    rw [layoutOnto, spelled_groupOnto, ih]
    rfl
  | binary op a b iha ihb =>
    rw [layoutOnto, spelled_groupOnto, iha, List.flatMap_cons, List.flatMap_cons, ihb]
    rfl

theorem length_of_enter_mem_layoutOnto (f : Formula) {i : Nat} {s : String}
    {rest : List LayoutEvent} (h : .enter i s ∈ f.layoutOnto rest) :
    i = s.length ∨ .enter i s ∈ rest := by
  induction f generalizing rest with
  | top => exact .inr ((List.mem_cons.mp h).resolve_left nofun)
  | bottom => exact .inr ((List.mem_cons.mp h).resolve_left nofun)
  | symbol n =>
    refine length_of_enter_mem_groupOnto _ _ (fun r hr => ?_) h
    exact .inr ((List.mem_cons.mp hr).resolve_left nofun)
  | not f ih => exact length_of_enter_mem_groupOnto _ _ (fun r hr => ih hr) h
  | binary op a b iha ihb =>
    refine length_of_enter_mem_groupOnto _ _ (fun r hr => ?_) h
    rcases iha hr with hlength | hr
    · exact .inl hlength
    -- behind the first argument stand a comma and a place for a line break
    · have hr := (List.mem_cons.mp hr).resolve_left nofun
      exact ihb ((List.mem_cons.mp hr).resolve_left nofun)

/-- **The layout spells the written form**: every formula has a layout, the layout consists of
properly nested groups, each indented by the length of the text with which it begins, and where no
line is broken its texts are the written form. -/
theorem layout_spells_written (f : Formula) :
    ∃ es, f.layout false = .ok es ∧ Nested es
      ∧ String.ofList (es.flatMap spelled) = f.written
      ∧ ∀ i s, .enter i s ∈ es → i = s.length := by
  refine ⟨f.layoutOnto [], rfl, f.nested_layoutOnto .nil, ?_, fun i s h => ?_⟩
  · rw [spelled_layoutOnto]
    rfl
  · exact (f.length_of_enter_mem_layoutOnto h).resolve_right List.not_mem_nil

end Formula

end Sentential
