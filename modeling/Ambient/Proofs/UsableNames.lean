import Ambient.Proofs.Closedness
/-!
# Names that can be used

The name of an external and the label of a field can be used in OCaml if they are lowercase
identifiers other than the wildcard `_`. All of them are lowercase identifiers. The wildcard is what
a name becomes of which nothing is left: the empty name, and a single character that identifiers
cannot have or that is an underscore itself. For such a name, and for no other, the text of the
bindings has a name in it that cannot be used (`names_usable_iff`).
-/

namespace Ambient

namespace Name

/-- A name of a value or a method that OCaml accepts. -/
def IsUsable (cs : List Char) : Prop := IsLowerIdent cs ∧ cs ≠ ['_']

/-- A name of which nothing is left in an identifier: it is empty, or a single character other than
an ASCII letter, a digit or a prime. -/
def IsVoid (cs : List Char) : Prop := cs = [] ∨ ∃ c, cs = [c] ∧ ¬ c.isAlphanum ∧ c ≠ '\x27'

theorem avoidReserved_eq_wildcard_iff (cs : List Char) : avoidReserved cs = ['_'] ↔ cs = ['_'] := by
  have hwild : isReserved ['_'] = false := not_isReserved_concat [] (.inl rfl)
  unfold avoidReserved
  split
  · rename_i hreserved
    constructor
    · intro h
      have hnil : cs = [] := List.append_left_eq_self.1 h
      subst hnil
      exact absurd hreserved (by decide)
    · rintro rfl
      exact absurd (hwild.symm.trans hreserved) (by decide)
  · rfl

theorem lowerFirst_cons_eq_wildcard_iff (c : Char) (cs : List Char) :
    lowerFirst (c :: cs) = ['_'] ↔ c = '_' ∧ cs = [] := by
  simp only [lowerFirst]
  split
  · rename_i hupper
    have hlower := isLower_toLower hupper
    constructor
    · intro h
      rw [(List.cons.inj h).1] at hlower
      exact absurd hlower (by decide)
    · rintro ⟨rfl, -⟩
      exact absurd hupper (by decide)
  · split
    · rename_i hdigit
      constructor
      · intro h
        cases h
      · rintro ⟨rfl, -⟩
        exact absurd hdigit (by decide)
    · exact List.cons.injEq .. ▸ Iff.rfl

theorem lowerChars_eq_wildcard_iff (cs : List Char) : lowerChars cs = ['_'] ↔ IsVoid cs := by
  rw [lowerChars, avoidReserved_eq_wildcard_iff]
  cases cs with
  | nil => simp [IsVoid, sanitize, lowerFirst]
  | cons c cs =>
    have hchar : (if isIdentChar c then c else '_') = '_' ↔ ¬ c.isAlphanum ∧ c ≠ '\x27' := by
      by_cases hc : isIdentChar c
      · rw [if_pos hc]
        simp only [isIdentChar, Bool.or_eq_true, beq_iff_eq] at hc
        constructor
        · rintro rfl
          decide
        · intro h
          exact (hc.resolve_right h.2).resolve_left h.1
      · simp only [isIdentChar, Bool.or_eq_true, beq_iff_eq, not_or] at hc
        simp [isIdentChar, hc]
    rw [sanitize, List.map_cons, lowerFirst_cons_eq_wildcard_iff, hchar, List.map_eq_nil_iff]
    simp [IsVoid, and_assoc, and_comm]

theorem isUsable_lowerChars_iff (cs : List Char) : IsUsable (lowerChars cs) ↔ ¬ IsVoid cs := by
  rw [← lowerChars_eq_wildcard_iff]
  exact ⟨And.right, fun h => ⟨isLowerIdent_lowerChars cs, h⟩⟩

end Name

/-! ## Names in bindings -/

namespace Ty

mutual

/-- The labels of the fields in a type. -/
def labels : Ty → List String
  | .constructor _ arguments => labelsIn arguments
  | .variable _ => []
  | .arrow _ parameters result => labelsIn parameters ++ result.labels
  | .tuple elements => labelsIn elements
  | .object fields => labelsOf fields

def labelsIn : List Ty → List String
  | [] => []
  | t :: ts => t.labels ++ labelsIn ts

def labelsOf : List Field → List String
  | [] => []
  | ⟨name, t⟩ :: fs => name :: t.labels ++ labelsOf fs

end

theorem labels_quantifiedBy (q : List String) (t : Ty) : (t.quantifiedBy q).labels = t.labels := by
  cases t <;> simp only [quantifiedBy, labels]

theorem labelsIn_shownAll {ts : List Ty} (h : ∀ t ∈ ts, t.shown.labels = t.labels.map lowerIdent) :
    labelsIn (shownAll ts) = (labelsIn ts).map lowerIdent := by
  induction ts with
  | nil => rfl
  | cons t ts ih =>
    rw [shownAll, labelsIn, labelsIn, List.map_append, h t List.mem_cons_self,
      ih fun u hu => h u (List.mem_cons_of_mem t hu)]

/-- The labels that a type shows are those it has, each written as an identifier. -/
theorem labels_shown (t : Ty) : t.shown.labels = t.labels.map lowerIdent := by
  induction t using induct with
  | constructor name ts ih => rw [shown, labels, labels, labelsIn_shownAll ih]
  | ofVariable name => rfl
  | arrow q ps r ihps ihr =>
    rw [shown, labels, labels, labelsIn_shownAll ihps, ihr, List.map_append]
  | tuple ts ih => rw [shown, labels, labels, labelsIn_shownAll ih]
  | object fs ih =>
    rw [shown, labels, labels]
    induction fs with
    | nil => rfl
    | cons f fs ihfs =>
      obtain ⟨name, type⟩ := f
      have htype := ih ⟨name, type⟩ List.mem_cons_self
      rw [shownFields, labelsOf, labelsOf, labels_quantifiedBy, htype,
        ihfs fun g hg => ih g (List.mem_cons_of_mem _ hg)]
      simp only [List.map_cons, List.map_append, List.cons_append]

end Ty

/-- The names that a line writes behind `external` and as labels. -/
def Reading.ShownLine.names : Reading.ShownLine → List String
  | .external e => e.name :: e.type.labels
  | .typeDeclaration d => d.body.labels
  | .opening _ | .closing => []

namespace Item

mutual

/-- The names of the externals and the labels of the fields in an item, as they are in the
declarations. -/
def names : Item → List String
  | .external e => e.name :: e.type.labels
  | .typeDeclaration d => d.body.labels
  | .submodule _ items => namesIn items

def namesIn : List Item → List String
  | [] => []
  | i :: is => i.names ++ namesIn is

end

mutual

theorem names_lines : (i : Item) →
    i.shown.lines.flatMap Reading.ShownLine.names = i.names.map lowerIdent
  | .external e => by
    simp [shown, ShownItem.lines, Reading.ShownLine.names, names, Extern.shown, Ty.labels_shown]
  | .typeDeclaration d => by
    simp [shown, ShownItem.lines, Reading.ShownLine.names, names, TypeDeclaration.shown,
      Ty.labels_shown]
  | .submodule name is => by
    simp [shown, ShownItem.lines, Reading.ShownLine.names, names, names_linesAll is]

/-- The names that the lines of items write are those of the items, each written as an
identifier. -/
theorem names_linesAll : (is : List Item) →
    (ShownItem.linesAll (shownAll is)).flatMap Reading.ShownLine.names
      = (namesIn is).map lowerIdent
  | [] => rfl
  | i :: is => by
    rw [shownAll, ShownItem.linesAll, namesIn, List.flatMap_append, List.map_append, names_lines i,
      names_linesAll is]

end

end Item

/-! ## Files -/

/-- The lines of the text of a file show the names of its externals and the labels of its fields,
written as lowercase identifiers. Such a name can be used if and only if it was not void in the
declarations. -/
theorem names_usable_iff {layout : Layout} {filename source text : String}
    (h : compile layout filename source = .ok text) :
    ∃ items shown, bindingsOf source = .ok items ∧ text = layout.print filename items ∧
      List.Forall₂ (fun l s => Reading.Shows l.text s) (Item.linesAll 0 items) shown ∧
      shown.flatMap Reading.ShownLine.names = (Item.namesIn items).map lowerIdent ∧
      ∀ name ∈ Item.namesIn items, Name.IsLowerIdent (lowerIdent name).toList ∧
        (Name.IsUsable (lowerIdent name).toList ↔ ¬ Name.IsVoid name.toList) := by
  unfold compile at h
  split at h
  · rename_i items hitems
    have hproper := allProper_of_bindingsOf hitems
    refine ⟨items, ShownItem.linesAll (Item.shownAll items), hitems, (Except.ok.inj h).symm,
      Item.forall₂_shows hproper 0, Item.names_linesAll items, fun name _ => ?_⟩
    rw [toList_lowerIdent]
    exact ⟨Name.isLowerIdent_lowerChars _, Name.isUsable_lowerChars_iff _⟩
  · cases h

/-- A reserved word as the key of a member gives a name that can be used, a hyphen does not. -/
theorem names_usable_iff_members : ∃ text items,
    compile {} "a.d.ts" "declare interface A \x7b type: string; '-': number; \x7d" = .ok text ∧
    bindingsOf "declare interface A \x7b type: string; '-': number; \x7d" = .ok items ∧
    Item.namesIn items = ["type", "-", "type", "-"] ∧
    Name.IsUsable (lowerIdent "type").toList ∧ ¬ Name.IsUsable (lowerIdent "-").toList := by
  have hok : bindingsOf "declare interface A \x7b type: string; '-': number; \x7d"
      = .ok [.submodule "A" (interfaceItems [] [⟨"type", .named "string"⟩,
        ⟨"-", .named "float"⟩])] := by
    decide +kernel
  have hcompile := compile_of_bindingsOf hok {} "a.d.ts"
  obtain ⟨items, -, hitems, -, -, -, hnames⟩ := names_usable_iff hcompile
  rw [hok] at hitems
  cases hitems
  have htype : ¬ Name.IsVoid "type".toList := by
    rintro (h | ⟨c, h, -⟩)
    · exact absurd h (by decide)
    · exact absurd (congrArg List.length h) (by simp)
  have hhyphen : Name.IsVoid "-".toList := .inr ⟨'-', rfl, by decide, by decide⟩
  have hlist : Item.namesIn [.submodule "A" (interfaceItems [] [⟨"type", .named "string"⟩,
      ⟨"-", .named "float"⟩])] = ["type", "-", "type", "-"] := rfl
  rw [hlist] at hnames
  refine ⟨_, _, hcompile, hok, hlist, (hnames "type" (by simp)).2.2 htype, fun husable => ?_⟩
  exact (hnames "-" (by simp)).2.1 husable hhyphen

/-- The name of a variable can be the wildcard. -/
theorem names_unusable :
    compile ⟨2, false⟩ "a.d.ts" "declare var _: string;"
      = .ok "external _ : string = \"_\" [@@bs.val]\n" ∧
    Reading.Shows "external _ : string = \"_\" [@@bs.val]".toList
      (.external ⟨"_", "_", .named "string", .val, false⟩) ∧
    ¬ Name.IsUsable "_".toList := by
  have hrun : compile ⟨2, false⟩ "a.d.ts" "declare var _: string;"
        = .ok "external _ : string = \"_\" [@@bs.val]\n" ∧
      Extern.chars ⟨none, false, "_", .named "string", false, false⟩
        = "external _ : string = \"_\" [@@bs.val]".toList ∧
      Extern.shown ⟨none, false, "_", .named "string", false, false⟩
        = ⟨"_", "_", .named "string", .val, false⟩ := by
    decide +kernel
  obtain ⟨hcompile, hchars, hshown⟩ := hrun
  refine ⟨hcompile, ?_, fun h => h.2 rfl⟩
  rw [← hchars, ← hshown]
  exact ⟨_, fun n hn => Reading.line_external _ rfl hn⟩

end Ambient
