import Ambient.Proofs.Lines
import Ambient.Proofs.Sites
/-!
# Bindings are uniquely readable

Two bindings have the same text exactly if they show the same, whatever the layout. The readers need
every function to have a parameter and every tuple two elements; all bindings of a file are like
that, because a signature without parameters takes `unit` and shorter tuples are errors.
-/

namespace Ambient

/-! ## Bound types are proper -/

theorem BuiltIn.isProper_target {ts : List Ty} (h : ∀ t ∈ ts, t.isProper) (b : BuiltIn) :
    (b.target ts).isProper := by
  cases b with
  | array | readonlyArray | promise => exact Ty.allProper_iff.2 h
  | _ => rfl

theorem Scope.isProper_target {scope : Scope} {ts : List Ty} (h : ∀ t ∈ ts, t.isProper)
    (entry : Entry) : (scope.target ts entry).isProper := by
  have hts := Ty.allProper_iff.2 h
  cases entry with
  | builtIn b => exact b.isProper_target h
  | typeAlias name arity => exact hts
  | interface name arity =>
    simp only [Scope.target]
    split
    · exact hts
    · exact hts
  | typeVariable name printed => rfl

theorem keeps_isProper : Scope.discipline.Keeps fun _ t => t.isProper where
  refers := by
    rintro c name ts t ⟨entry, -, -, -, rfl⟩ h
    exact Scope.isProper_target h entry
  literal l := by cases l <;> rfl
  array h := by simpa [Ty.isProper, Ty.allProper] using h
  tuple htwo h := by simpa [Ty.isProper, htwo, Ty.allProper_iff] using h
  nullish h := by simpa [Ty.orNullish, Ty.isProper, Ty.allProper] using h
  undefined h := by simpa [Ty.orUndefined, Ty.isProper, Ty.allProper] using h
  unit := rfl
  object h := by simpa [Ty.isProper, Ty.allProperFields_iff] using h
  arrow _ hne hps hr := by
    simp only [Ty.isProper, Bool.and_eq_true, Ty.allProper_iff]
    exact ⟨⟨by simpa using hne, hps⟩, hr⟩

theorem Item.allProper_iff {is : List Item} : Item.allProper is ↔ ∀ i ∈ is, i.isProper := by
  induction is with
  | nil => simp [Item.allProper]
  | cons i is ih => simp [Item.allProper, ih]

theorem isProper_interfaceItems {vs : List String} {fields : List Field}
    (h : (Ty.object fields).isProper) : Item.allProper (interfaceItems vs fields) := by
  rw [Item.allProper_iff]
  intro i hi
  unfold interfaceItems at hi
  rcases List.mem_cons.1 hi with rfl | hi
  · exact h
  · obtain ⟨f, hf, rfl⟩ := List.mem_map.1 hi
    have hvs : Ty.allProper (vs.map .variable) := by
      rw [Ty.allProper_iff]
      intro t ht
      obtain ⟨v, -, rfl⟩ := List.mem_map.1 ht
      rfl
    have hf := Ty.allProperFields_iff.1 h f hf
    simp only [Field.getter, Item.isProper, Ty.isProper, Ty.allProper, hvs, hf]
    rfl

theorem Declared.Binds.isProper {scope : Scope} {d : Declared} {item : Item}
    (h : d.Binds Scope.discipline scope item) : item.isProper := by
  cases h with
  | ofVariable _ _ h => exact h.keeps keeps_isProper
  | ofFunction _ _ h => exact h.keeps keeps_isProper
  | ofTypeAlias _ _ h => exact h.keeps keeps_isProper
  | ofInterface _ _ h => exact isProper_interfaceItems (h.keeps keeps_isProper)

theorem allProper_of_bindingsOf {source : String} {items : List Item}
    (h : bindingsOf source = .ok items) : Item.allProper items := by
  obtain ⟨file, hfile⟩ := exists_compiles h
  rw [Item.allProper_iff]
  intro i hi
  obtain ⟨k, hk⟩ := List.mem_iff_getElem?.1 hi
  obtain ⟨s, -, hs⟩ := hfile.exists_site hk
  exact hs.isProper

/-! ## Unique readability -/

/-- Proper bindings are laid out as the same text exactly if they show the same, and the bindings of
a file are proper. -/
theorem uniquely_readable (layout : Layout) (filename : String) :
    (∀ as bs : List Item, Item.allProper as → Item.allProper bs →
      (layout.print filename as = layout.print filename bs ↔
        Item.shownAll as = Item.shownAll bs)) ∧
      ∀ source items, bindingsOf source = .ok items → Item.allProper items := by
  refine ⟨fun as bs ha hb => ⟨Layout.shownAll_eq_of_print_eq ha hb, fun h => ?_⟩,
    fun source items => allProper_of_bindingsOf⟩
  have hlines := Item.linesAll_eq_of_shown as bs 0 h
  simp only [Layout.print, Layout.printChars, hlines]

/-- Two type declarations that only differ in how their names are spelled and in what is not
written have one text; and a file with a function without parameters and a tuple is proper. -/
theorem uniquely_readable_respelled :
    ({} : Layout).print "a.d.ts"
        [.typeDeclaration ⟨false, "a$b", ["T"], .arrow ["b"] [.variable "T"] .unit⟩]
      = ({} : Layout).print "a.d.ts"
        [.typeDeclaration ⟨false, "a_b", ["t"], .arrow [] [.variable "t"] .unit⟩] ∧
    ∃ items, bindingsOf "declare type f = () => [string, number];" = .ok items ∧
      Item.allProper items := by
  constructor
  · refine ((uniquely_readable {} "a.d.ts").1 _ _ rfl rfl).2 ?_
    have hname : lowerIdent "a$b" = lowerIdent "a_b" := by decide +kernel
    have hparameter : lowerIdent "T" = lowerIdent "t" := by decide +kernel
    simp only [Item.shownAll, Item.shown, TypeDeclaration.shown, Ty.shown, Ty.shownAll,
      List.map_cons, List.map_nil, hname, hparameter]
  · have hok : (bindingsOf "declare type f = () => [string, number];").isOk := by decide +kernel
    cases h : bindingsOf "declare type f = () => [string, number];" with
    | error e => rw [h] at hok; cases hok
    | ok items => exact ⟨items, rfl, (uniquely_readable {} "a.d.ts").2 _ _ h⟩

end Ambient
