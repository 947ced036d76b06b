import Ambient.Proofs.DeclaredBeforeUse
import Ambient.Proofs.TypeParameters
/-!
# What printed names denote

Bindings are read from top to bottom: the name that a printed path starts with denotes the last item
before it that is printed under that name, and a predefined type or module if there is none. A
reference of a declaration file is resolved in a scope instead, where names are compared as they are
declared and what a module declares is gone behind it.

The two agree at a reference if and only if no item between the one that is meant and the one that
refers to it is printed under the same name (`Reads`). Nothing else can come between them: a type
alias is marked so that its own name denotes an earlier type, and an alias that the own type of an
interface would hide is refused. They do not always agree, since a module can redeclare a name for
what comes behind it.
-/

namespace Ambient

open Name (lowerChars moduleChars typePath)

/-! ## Reading bindings -/

/-- The name that an item gives to a type or a module. -/
def Item.printedName : Item → Option (List Char)
  | .external _ => none
  | .typeDeclaration d => some (lowerChars d.name.toList)
  | .submodule name _ => some (moduleChars name.toList)

def printedAt (items : List Item) (i : Nat) : Option (List Char) := items[i]?.bind Item.printedName

/-- Whether a name denotes the item inside the item itself. -/
def Item.namesItself (w : List Char) : Item → Bool
  | .external _ => false
  | .typeDeclaration d => !d.isNonrec && lowerChars d.name.toList == w
  | .submodule _ items => items.any (·.printedName == some w)

/-- The last of the first `k` items that is printed under a name. -/
def latest (items : List Item) (w : List Char) : Nat → Option Nat
  | 0 => none
  | k + 1 => if printedAt items k = some w then some k else latest items w k

/-- The name that a path starts with, as it is printed. -/
def headName (path : String) : List Char := (pieces '.' (typePath path)).headD []

/-- The item that a path denotes in item `k`, or none if it is predefined. -/
def denoted (items : List Item) (k : Nat) (path : String) : Option Nat :=
  if items[k]?.any (·.namesItself (headName path)) then some k else latest items (headName path) k

theorem latest_eq_none_iff {items : List Item} {w : List Char} {k : Nat} :
    latest items w k = none ↔ ∀ i < k, printedAt items i ≠ some w := by
  induction k with
  | zero => simp [latest]
  | succ k ih =>
    unfold latest
    split
    · rename_i hk
      exact ⟨nofun, fun h => absurd hk (h k (Nat.lt_succ_self k))⟩
    · rename_i hk
      rw [ih]
      constructor
      · intro h i hi
        by_cases hik : i = k
        · rw [hik]
          exact hk
        · exact h i (by omega)
      · exact fun h i hi => h i (by omega)

theorem latest_eq_some_iff {items : List Item} {w : List Char} {k j : Nat} (hjk : j < k)
    (hj : printedAt items j = some w) :
    latest items w k = some j ↔ ∀ i, j < i → i < k → printedAt items i ≠ some w := by
  induction k with
  | zero => omega
  | succ k ih =>
    unfold latest
    split
    · rename_i hk
      constructor
      · rintro ⟨⟩ i hji hik
        omega
      · intro h
        by_cases hkj : k = j
        · rw [hkj]
        · exact absurd hk (h k (by omega) (by omega))
    · rename_i hk
      have hne : j ≠ k := fun heq => hk (heq ▸ hj)
      rw [ih (by omega)]
      constructor
      · intro h i hji hik
        by_cases hi : i = k
        · rw [hi]
          exact hk
        · exact h i hji (by omega)
      · exact fun h i hji hik => h i hji (by omega)

/-! ## Captured references -/

/-- Item `i` comes between the item that is meant and item `k`, and is printed under the name that
the path starts with. -/
structure Captures (items : List Item) (m : Option Nat) (k : Nat) (path : String) (i : Nat) :
    Prop where
  behind : ∀ j ∈ m, j < i
  before : i < k
  alike : printedAt items i = some (headName path)

/-- The declaration that a name means in a scope inside declaration `k`, if it is not built in. -/
def View.meant (all : List Site) (k : Nat) (v : View) (c : Scope) (name : String) : Option Nat :=
  if c.interfaceName = some name then some k else v.origin all name

/-- The entry is what the declaration that is meant brings into scope. -/
def Entry.ComesFrom (all : List Site) (m : Option Nat) : Entry → Prop
  | .typeVariable .. => True
  | .builtIn _ => m = none
  | e => ∃ j, m = some j ∧ all[j]?.bind (·.declared.entry) = some e

/-- How a reference to `name` reads that is printed as `path`. -/
structure Reads (all : List Site) (items : List Item) (k : Nat) (v : View) (c : Scope)
    (name path : String) : Prop where
  /-- The path denotes what is meant if nothing captures it. -/
  denoted_iff : denoted items k path = v.meant all k c name ↔
    ∀ i, ¬ Captures items (v.meant all k c name) k path i
  /-- What captures it is declared under another name, or is out of scope. -/
  unseen : ∀ i, Captures items (v.meant all k c name) k path i →
    i ∈ v.visible → ¬ all[i]?.any (·.declares name)

/-- References inside declaration `k`, each resolved in its scope and read back. -/
def reading (all : List Site) (items : List Item) (k : Nat) (v : View) : Discipline Scope where
  refers c name ts t := ∃ entry, c.lookup name = some entry ∧ t = c.target ts entry ∧
    entry.ComesFrom all (v.meant all k c name) ∧
    ∀ a ∈ (c.target [] entry).applications, Reads all items k v c name a.1
  declares := Scope.discipline.declares
  enters := Scope.discipline.enters
  drops := Scope.discipline.drops

section

variable {all : List Site} {items : List Item} {k : Nat} {v : View} {c : Scope}
  {name path : String}

/-- Inside an interface its own type is denoted by its own name. -/
theorem Reads.self {item : Item} (hitem : items[k]? = some item)
    (hself : item.namesItself (headName path)) (hm : v.meant all k c name = some k) :
    Reads all items k v c name path := by
  have hno : ∀ i, ¬ Captures items (some k) k path i := fun i hi =>
    Nat.lt_asymm (hi.behind k rfl) hi.before
  rw [← hm] at hno
  refine ⟨⟨fun _ => hno, fun _ => ?_⟩, fun i hi => absurd hi (hno i)⟩
  rw [hm, denoted, hitem, Option.any_some, if_pos hself]

/-- The most recent visible declaration of a name is the one that is meant. -/
theorem View.Fits.le_origin {count : Nat} (h : v.Fits all count) {i : Nat} (hi : i ∈ v.visible)
    (hdecl : all[i]?.any (·.declares name)) : ∃ j, v.origin all name = some j ∧ i ≤ j := by
  have hsorted := h.sorted
  unfold View.origin
  generalize v.visible = visible at hi hsorted
  induction visible with
  | nil => cases hi
  | cons j js ih =>
    rw [List.pairwise_cons] at hsorted
    by_cases hj : all[j]?.any (·.declares name)
    · refine ⟨j, by simp only [List.find?_cons, hj], ?_⟩
      rcases List.mem_cons.1 hi with rfl | hi
      · exact Nat.le_refl _
      · exact Nat.le_of_lt (hsorted.1 i hi)
    · simp only [List.find?_cons, hj]
      rcases List.mem_cons.1 hi with rfl | hi
      · exact absurd hdecl hj
      · exact ih hi hsorted.2

/-- A reference to a type that is declared outside. -/
theorem Reads.outside {item : Item} {count : Nat} (hv : v.Fits all count)
    (hitem : items[k]? = some item) (hself : ¬ item.namesItself (headName path))
    (hc : c.interfaceName ≠ some name)
    (horigin : ∀ j ∈ v.origin all name, j < k ∧ printedAt items j = some (headName path)) :
    Reads all items k v c name path := by
  have hm : v.meant all k c name = v.origin all name := if_neg hc
  have hdenoted : denoted items k path = latest items (headName path) k := by
    rw [denoted, hitem, Option.any_some, if_neg hself]
  constructor
  · rw [hm, hdenoted]
    cases ho : v.origin all name with
    | none =>
      rw [latest_eq_none_iff]
      exact ⟨fun h i hi => h i hi.before hi.alike, fun h i hik heq => h i ⟨nofun, hik, heq⟩⟩
    | some j =>
      obtain ⟨hjk, hj⟩ := horigin j ho
      rw [latest_eq_some_iff hjk hj]
      refine ⟨fun h i hi => h i (hi.behind j rfl) hi.before hi.alike, fun h i hji hik heq => ?_⟩
      exact h i ⟨by rintro _ ⟨⟩; exact hji, hik, heq⟩
  · intro i hi hvisible hdecl
    obtain ⟨j, hj, hij⟩ := hv.le_origin hvisible hdecl
    have hji := hi.behind j (hm ▸ hj)
    omega

end

/-! ## Printed names -/

namespace Name

theorem lowerChars_ne_moduleChars (cs ds : List Char) : lowerChars cs ≠ moduleChars ds := by
  obtain ⟨c, cs', hc, hlow⟩ := lowerChars_eq_cons cs
  obtain ⟨d, ds', hd, hup⟩ := moduleChars_eq_cons ds
  intro heq
  rw [hc, hd] at heq
  obtain ⟨rfl, -⟩ := List.cons.inj heq
  have all : ∀ n < 128, isIdentChar (Char.ofNat n) → (Char.ofNat n).isUpper →
      ¬ startsLower (Char.ofNat n) := by decide
  exact ident_forall (p := fun c => c.isUpper → ¬ startsLower c) all (isIdentChar_of_isUpper hup)
    hup hlow

/-- Only `t` and `T` are written as `t`. -/
theorem eq_of_lowerChars_eq {cs : List Char} (h : lowerChars cs = ['t']) :
    cs = ['t'] ∨ cs = ['T'] := by
  unfold lowerChars avoidReserved at h
  split at h
  · simp [List.append_eq_singleton_iff] at h
  · cases cs with
    | nil => cases h
    | cons c cs =>
      have hkeep : ∀ d, d ≠ '_' → (if isIdentChar c then c else '_') = d → c = d := by
        intro d hd heq
        split at heq
        · exact heq
        · exact absurd heq.symm hd
      simp only [sanitize, List.map_cons] at h
      generalize (if isIdentChar c then c else '_') = kept at h hkeep
      simp only [lowerFirst] at h
      split at h
      · rename_i hup
        obtain ⟨hlower, hcs⟩ := List.cons.inj h
        have all : ∀ n < 128, (Char.ofNat n).isUpper → (Char.ofNat n).toLower = 't' →
            Char.ofNat n = 'T' := by decide
        have hT := ident_forall (p := fun c => c.isUpper → c.toLower = 't' → c = 'T')
          (fun n hn _ => all n hn) (isIdentChar_of_isUpper hup) hup hlower
        rw [hkeep 'T' (by decide) hT, List.map_eq_nil_iff.1 hcs]
        exact .inr rfl
      · split at h
        · exact absurd (List.cons.inj h).1 (by decide)
        · obtain ⟨hc, hcs⟩ := List.cons.inj h
          rw [hkeep 't' (by decide) hc, List.map_eq_nil_iff.1 hcs]
          exact .inl rfl

end Name

theorem headName_of_not_mem {name : String} (h : '.' ∉ name.toList) :
    headName name = lowerChars name.toList := by
  rw [headName, Name.pieces_typePath, Name.pieces_of_not_mem h]
  rfl

theorem headName_of_mem {name : String} (h : '.' ∈ name.toList) :
    ∃ m, headName name = moduleChars m := by
  obtain ⟨m, rest, heq, hm⟩ := List.eq_append_cons_of_mem h
  refine ⟨m, ?_⟩
  rw [headName, Name.pieces_typePath, heq, Name.pieces_append hm]
  cases hrest : pieces '.' rest with
  | nil => exact absurd hrest (pieces_ne_nil _ _)
  | cons p ps => rfl

theorem headName_pathToSelf {name : String} (h : '.' ∉ name.toList) :
    headName (pathToSelf name) = moduleChars name.toList := by
  rw [headName, Name.pieces_typePath, toList_pathToSelf, Name.pieces_append h]
  rfl

theorem headName_selfType : headName selfType = ['t'] := by decide

theorem eq_selfType {name : String} (hlower : Letter.startsLower name)
    (h : lowerChars name.toList = ['t']) : name = selfType := by
  have hT : Letter.startsLower "T" = false := by decide +kernel
  rcases Name.eq_of_lowerChars_eq h with heq | heq
  · exact String.toList_inj.1 heq
  · rw [show name = "T" from String.toList_inj.1 heq, hT] at hlower
    cases hlower

/-! ## Names of items inside them -/

theorem Ty.anyNameIn_eq_any (p : String → Bool) (ts : List Ty) :
    Ty.anyNameIn p ts = ts.any (Ty.anyName p) := by
  induction ts with
  | nil => rfl
  | cons t ts ih => rw [Ty.anyNameIn, ih, List.any_cons]

theorem Ty.anyNameOf_eq_any (p : String → Bool) (fs : List Field) :
    Ty.anyNameOf p fs = fs.any (·.type.anyName p) := by
  induction fs with
  | nil => rfl
  | cons f fs ih =>
    obtain ⟨name, t⟩ := f
    rw [Ty.anyNameOf, ih, List.any_cons]

theorem Ty.anyName_of_mem {p : String → Bool} {a : String × Nat} (hp : p a.1) {t : Ty}
    (ha : a ∈ t.applications) : t.anyName p := by
  induction t using Ty.induct with
  | constructor name ts ih =>
    rw [Ty.applications] at ha
    rw [Ty.anyName, Ty.anyNameIn_eq_any, Bool.or_eq_true, List.any_eq_true]
    rcases List.mem_cons.1 ha with rfl | ha
    · exact .inl hp
    · obtain ⟨t, ht, ha⟩ := Ty.mem_applicationsIn.1 ha
      exact .inr ⟨t, ht, ih t ht ha⟩
  | ofVariable name => cases ha
  | arrow q ps r ihps ihr =>
    rw [Ty.applications] at ha
    rw [Ty.anyName, Ty.anyNameIn_eq_any, Bool.or_eq_true, List.any_eq_true]
    rcases List.mem_append.1 ha with ha | ha
    · obtain ⟨t, ht, ha⟩ := Ty.mem_applicationsIn.1 ha
      exact .inl ⟨t, ht, ihps t ht ha⟩
    · exact .inr (ihr ha)
  | tuple ts ih =>
    rw [Ty.anyName, Ty.anyNameIn_eq_any, List.any_eq_true]
    obtain ⟨t, ht, ha⟩ := Ty.mem_applicationsIn.1 ha
    exact ⟨t, ht, ih t ht ha⟩
  | object fs ih =>
    rw [Ty.anyName, Ty.anyNameOf_eq_any, List.any_eq_true]
    obtain ⟨f, hf, ha⟩ := Ty.mem_applicationsOf.1 ha
    exact ⟨f, hf, ih f hf ha⟩

/-- A type alias is not recursive: what its body uses denotes an earlier type. -/
theorem not_namesItself_alias {name : String} {vs : List String} {body : Ty} {a : String × Nat}
    (ha : a ∈ body.applications) :
    ¬ (Item.typeDeclaration ⟨body.anyName (namesAlias name), name, vs, body⟩).namesItself
      (headName a.1) := by
  intro h
  simp only [Item.namesItself, Bool.and_eq_true, Bool.not_eq_true', beq_iff_eq] at h
  obtain ⟨hrec, heq⟩ := h
  by_cases hdot : '.' ∈ a.1.toList
  · obtain ⟨m, hm⟩ := headName_of_mem hdot
    exact Name.lowerChars_ne_moduleChars _ _ (heq.trans hm)
  · rw [headName_of_not_mem hdot] at heq
    have hnames : namesAlias name a.1 := by
      simp [namesAlias, hdot, lowerIdent, heq]
    rw [Ty.anyName_of_mem hnames ha] at hrec
    cases hrec

theorem namesItself_interfaceItems {name : String} {vs : List String} {fields : List Field}
    {w : List Char} :
    (Item.submodule name (interfaceItems vs fields)).namesItself w ↔ w = headName selfType := by
  have hgetters : ∀ fields : List Field,
      (fields.map (Field.getter (.constructor selfType (vs.map .variable)))).any
        (·.printedName == some w) = false := by
    intro fields
    simp [Field.getter, Item.printedName]
  rw [Item.namesItself, interfaceItems, List.any_cons, hgetters, Bool.or_false, beq_iff_eq,
    headName_selfType]
  have hself : lowerChars selfType.toList = ['t'] := by decide
  change some (lowerChars selfType.toList) = some w ↔ _
  rw [hself, Option.some.injEq, eq_comm]

/-! ## References inside declarations -/

/-- The paths of a reference without arguments are those of the reference. -/
theorem Scope.mem_applications_target {c : Scope} {e : Entry} {a : String × Nat}
    (ha : a ∈ (c.target [] e).applications) (ts : List Ty) :
    ∃ n, (a.1, n) ∈ (c.target ts e).applications := by
  rcases c.target_cases e with ⟨path, htarget⟩ | ⟨-, htarget⟩
  · rw [htarget] at ha ⊢
    rw [List.mem_singleton.1 ha]
    exact ⟨ts.length, by simp [Ty.applications]⟩
  · rw [htarget]
    exact ⟨a.2, ha⟩

/-- What is known of all paths in a type is known of the paths in its parts. -/
theorem inherits_applications (S : String → Prop) :
    Scope.discipline.Inherits fun t => ∀ a ∈ t.applications, S a.1 := by
  have hconstructor : ∀ {path : String} {ts : List Ty},
      (∀ a ∈ (Ty.constructor path ts).applications, S a.1) →
      ∀ u ∈ ts, ∀ a ∈ u.applications, S a.1 := by
    intro path ts h u hu a ha
    refine h a ?_
    rw [Ty.applications]
    exact List.mem_cons_of_mem _ (Ty.mem_applicationsIn.2 ⟨u, hu, ha⟩)
  constructor
  case refers =>
    rintro c name ts t ⟨entry, -, hlen, -, rfl⟩ h
    rcases c.target_cases entry with ⟨path, htarget⟩ | ⟨harity, -⟩
    · rw [htarget] at h
      exact hconstructor h
    · rw [List.eq_nil_of_length_eq_zero (hlen.trans harity)]
      rintro u ⟨⟩
  case array | nullish | undefined =>
    intro t h
    exact hconstructor h t (by simp)
  case tuple => exact fun h u hu a ha => h a (Ty.mem_applicationsIn.2 ⟨u, hu, ha⟩)
  case object => exact fun h f hf a ha => h a (Ty.mem_applicationsOf.2 ⟨f, hf, ha⟩)
  case arrow =>
    intro vs ts r h
    constructor
    · intro u hu a ha
      refine h a ?_
      rw [Ty.applications]
      exact List.mem_append_left _ (Ty.mem_applicationsIn.2 ⟨u, hu, ha⟩)
    · intro a ha
      refine h a ?_
      rw [Ty.applications]
      exact List.mem_append_right _ ha

section

variable {source : String} {file : File} {items : List Item}

/-- A declaration is printed under the name that references to it start with. -/
theorem printedAt_of_entry (hfile : Compiles source file items) {j : Nat} {s : Site}
    (hj : file.sites[j]? = some s) {e : Entry} (he : s.declared.entry = some e) :
    (∃ name arity, e = .typeAlias name arity ∧ Letter.startsLower name ∧
      '.' ∉ name.toList ∧ printedAt items j = some (headName name)) ∨
      ∃ name arity, e = .interface name arity ∧ '.' ∉ name.toList ∧
        printedAt items j = some (headName (pathToSelf name)) := by
  have hdot := (isWord_of_parse hfile.parsed (List.mem_of_getElem? hj) he).not_mem_dot
  obtain ⟨item, hitem, hbinds⟩ := hfile.exists_item hj
  unfold printedAt
  rw [hitem, Option.bind_some]
  generalize s.declared = d at hbinds he
  cases hbinds with
  | ofVariable => cases he
  | ofFunction => cases he
  | ofTypeAlias hlower _ _ =>
    cases he
    exact .inl ⟨_, _, rfl, hlower, hdot, congrArg some (headName_of_not_mem hdot).symm⟩
  | ofInterface _ _ _ =>
    cases he
    exact .inr ⟨_, _, rfl, hdot, congrArg some (headName_pathToSelf hdot).symm⟩

/-- Inside an interface nothing but the interface is printed under the name of its own type. -/
theorem headName_ne_selfType (hfile : Compiles source file items) {k : Nat} {s : Site}
    (hs : file.sites[k]? = some s) {c : Scope} {name : String} {e : Entry}
    (hl : s.view.scope.lookup name = some e) (hin : c.interfaceName ≠ none)
    (hout : c.interfaceName ≠ some name) (hhidden : Scope.resolve.hiddenBy c e = none)
    {a : String × Nat} (ha : a ∈ (c.target [] e).applications) :
    headName a.1 ≠ headName selfType := by
  rw [headName_selfType]
  rcases (File.fits_of_mem_sites hs).lookup_cases hl with ⟨j, s', -, hj, he⟩ | ⟨-, b, rfl⟩
  · rcases printedAt_of_entry hfile hj he with
      ⟨n, arity, rfl, hlower, hdot, -⟩ | ⟨n, arity, rfl, hdot, -⟩
    · -- An alias that is printed as `t` is named `t`, and then it is refused.
      rw [List.mem_singleton.1 ha, headName_of_not_mem hdot]
      intro ht
      rw [eq_selfType hlower ht] at hhidden
      exact hin hhidden
    · obtain rfl : n = name := Scope.name_of_lookup hl
      rw [Scope.target_interface hout] at ha
      rw [List.mem_singleton.1 ha, headName_pathToSelf hdot]
      have hlower : lowerChars ['t'] = ['t'] := by decide
      rw [← hlower]
      exact (Name.lowerChars_ne_moduleChars _ _).symm
  · have hbuiltIn : ∀ a ∈ (b.target []).applications, headName a.1 ≠ ['t'] := by
      cases b <;> decide
    exact hbuiltIn a ha

theorem reading_refers (hfile : Compiles source file items) {k : Nat} {s : Site}
    {item : Item} (hs : file.sites[k]? = some s) (hitem : items[k]? = some item) {own : Scope.Own}
    {c : Scope} (hc : s.view.scope.Inside own c) {name : String} {ts : List Ty} {t : Ty}
    (hown : ∀ x ∈ own, s.declared.entry = some (.interface x.1 x.2) ∧
      ∃ vs fields, item = .submodule x.1 (interfaceItems vs fields))
    (ht : ∀ a ∈ t.applications, own = none → ¬ item.namesItself (headName a.1))
    (href : Scope.discipline.refers c name ts t) :
    (reading file.sites items k s.view).refers c name ts t := by
  obtain ⟨entry, hlookup, -, hhidden, rfl⟩ := href
  refine ⟨entry, hlookup, rfl, ?_⟩
  rcases hc.lookup_cases hlookup with ⟨printed, rfl⟩ | ⟨arity, rfl, rfl⟩ | ⟨hbase, hforeign⟩
  · exact ⟨trivial, nofun⟩
  · -- The interface around, as `t` in its module.
    obtain ⟨hentry, vs, fields, rfl⟩ := hown _ rfl
    have hin : c.interfaceName = some name := hc.interfaceName
    have hm : s.view.meant file.sites k c name = some k := if_pos hin
    refine ⟨⟨k, hm, by rw [hs]; exact hentry⟩, fun a ha => .self hitem ?_ hm⟩
    rw [Scope.target_self hin] at ha
    rw [List.mem_singleton.1 ha]
    exact namesItself_interfaceItems.2 rfl
  · -- A name from outside. Where the declaration stands it has an origin, or it is built in.
    have hfits := File.fits_of_mem_sites hs
    have hout := hc.interfaceName_ne hforeign
    have hm : s.view.meant file.sites k c name = s.view.origin file.sites name := if_neg hout
    -- Nothing that is printed for it can denote the item that it stands in.
    have hself : ∀ a ∈ (c.target [] entry).applications, ¬ item.namesItself (headName a.1) := by
      intro a ha
      cases own with
      | none =>
        obtain ⟨n, hn⟩ := Scope.mem_applications_target ha ts
        exact ht (a.1, n) hn rfl
      | some x =>
        obtain ⟨-, vs, fields, rfl⟩ := hown _ rfl
        have hin : c.interfaceName ≠ none := by
          rw [hc.interfaceName]
          nofun
        rw [namesItself_interfaceItems]
        exact headName_ne_selfType hfile hs hbase hin hout hhidden ha
    rw [hm]
    rcases hfits.lookup_cases hbase with ⟨j, s', horigin, hj, he⟩ | ⟨horigin, b, rfl⟩
    · have hjk : j < k := hfits.below j (List.mem_of_find?_eq_some horigin)
      have hentry : file.sites[j]?.bind (·.declared.entry) = some entry := by rw [hj]; exact he
      have hreads : ∀ a ∈ (c.target [] entry).applications,
          printedAt items j = some (headName a.1) → Reads file.sites items k s.view c name a.1 := by
        intro a ha hprinted
        refine .outside hfits hitem (hself a ha) hout fun j' hj' => ?_
        rw [horigin] at hj'
        cases hj'
        exact ⟨hjk, hprinted⟩
      rcases printedAt_of_entry hfile hj he with
        ⟨n, arity, rfl, -, -, hprinted⟩ | ⟨n, arity, rfl, -, hprinted⟩
      · refine ⟨⟨j, horigin, hentry⟩, fun a ha => hreads a ha ?_⟩
        rw [List.mem_singleton.1 ha]
        exact hprinted
      · obtain rfl : n = name := Scope.name_of_lookup hlookup
        refine ⟨⟨j, horigin, hentry⟩, fun a ha => hreads a ha ?_⟩
        rw [Scope.target_interface hout] at ha
        rw [List.mem_singleton.1 ha]
        exact hprinted
    · refine ⟨horigin, fun a ha => .outside hfits hitem (hself a ha) hout ?_⟩
      rw [horigin]
      nofun

theorem reading_binds (hfile : Compiles source file items) {k : Nat} {s : Site}
    {item : Item} (hs : file.sites[k]? = some s) (hitem : items[k]? = some item) {own : Scope.Own}
    (hown : ∀ x ∈ own, s.declared.entry = some (.interface x.1 x.2) ∧
      ∃ vs fields, item = .submodule x.1 (interfaceItems vs fields))
    {c : Scope} (hc : s.view.scope.Inside own c) {part : Part} {t : Ty}
    (ht : ∀ a ∈ t.applications, own = none → ¬ item.namesItself (headName a.1))
    (hb : Binds Scope.discipline c part t) :
    Binds (reading file.sites items k s.view) c part t := by
  refine hb.imp (fun c c' => c' = c ∧ s.view.scope.Inside own c)
    (inherits_applications fun path => own = none → ¬ item.namesItself (headName path)) ?_ ?_ ?_
    ⟨rfl, hc⟩ ht
  · rintro c _ name ts t ⟨rfl, hc⟩ ht href
    exact reading_refers hfile hs hitem hc hown ht href
  · rintro c _ ps inner vs ⟨rfl, hc⟩ hdecl
    exact ⟨inner, hdecl, rfl, hc.declares hdecl⟩
  · rintro c _ a ⟨rfl, -⟩ hdrop
    exact hdrop

/-- Every reference in a file is bound to the item of the declaration that it is resolved to, or to
a predefined type, and its path denotes that in the bindings if and only if no item captures it. -/
theorem denoted_iff_of_bindingsOf (h : bindingsOf source = .ok items) :
    ∃ file, parse source = .ok file ∧ file.sites.length = items.length ∧
      ∀ (k : Nat) (s : Site) (item : Item), file.sites[k]? = some s → items[k]? = some item →
        s.declared.Binds (reading file.sites items k s.view) s.view.scope item := by
  obtain ⟨file, hfile⟩ := exists_compiles h
  refine ⟨file, hfile.parsed, hfile.sites.length_eq, fun k s item hs hitem => ?_⟩
  have hhere := Scope.Inside.here (File.fits_of_mem_sites hs).outside
  obtain ⟨item', hitem', hbinds⟩ := hfile.exists_item hs
  obtain rfl : item = item' := Option.some.inj (hitem.symm.trans hitem')
  have houtside : ∀ x ∈ (none : Scope.Own), s.declared.entry = some (.interface x.1 x.2) ∧
      ∃ vs fields, item = .submodule x.1 (interfaceItems vs fields) := by
    rintro _ ⟨⟩
  generalize hdeclared : s.declared = declared at hbinds
  cases hbinds with
  | ofVariable htype hname hb =>
    refine .ofVariable htype hname (reading_binds hfile hs hitem houtside hhere ?_ hb)
    rintro a - - ⟨⟩
  | ofFunction hresult hname hb =>
    refine .ofFunction hresult hname (reading_binds hfile hs hitem houtside hhere ?_ hb)
    rintro a - - ⟨⟩
  | ofTypeAlias hlower hdecl hb =>
    refine .ofTypeAlias hlower hdecl
      (reading_binds hfile hs hitem houtside (hhere.declares hdecl) ?_ hb)
    exact fun a ha _ => not_namesItself_alias ha
  | @ofInterface x inner vs fields hupper hdecl hb =>
    have hentry : s.declared.entry = some (.interface x.name vs.length) := by
      rw [hdeclared, Declared.entry, Scope.length_of_declareTypeParameters hdecl]
    have hown : ∀ y ∈ some (x.name, vs.length), s.declared.entry = some (.interface y.1 y.2) ∧
        ∃ vs' fields', Item.submodule x.name (interfaceItems vs fields)
          = .submodule y.1 (interfaceItems vs' fields') := by
      rintro _ ⟨⟩
      exact ⟨hentry, vs, fields, rfl⟩
    refine .ofInterface hupper hdecl
      (reading_binds hfile hs hitem hown (.interface (hhere.declares hdecl)) ?_ hb)
    rintro a - ⟨⟩

/-- An alias and the interface around, both used inside the interface, and the interface outside. -/
theorem denoted_iff_of_bindingsOf_interface : ∃ items,
    bindingsOf
        "declare type a = number; declare interface A \x7b a: a; b: A; \x7d declare var x: A;"
      = .ok items ∧
    denoted items 1 "a" = some 0 ∧ denoted items 1 "t" = some 1 ∧ denoted items 2 "A.t" = some 1 ∧
    ∃ file, parse
        "declare type a = number; declare interface A \x7b a: a; b: A; \x7d declare var x: A;"
        = .ok file ∧ file.sites.length = items.length ∧
      ∀ (k : Nat) (s : Site) (item : Item), file.sites[k]? = some s → items[k]? = some item →
        s.declared.Binds (reading file.sites items k s.view) s.view.scope item := by
  have hok : bindingsOf
        "declare type a = number; declare interface A \x7b a: a; b: A; \x7d declare var x: A;"
      = .ok [.typeDeclaration ⟨false, "a", [], .named "float"⟩,
        .submodule "A" (interfaceItems [] [⟨"a", .named "a"⟩, ⟨"b", .named "t"⟩]),
        .external ⟨none, false, "x", .named "A.t", false, false⟩] := by
    decide +kernel
  exact ⟨_, hok, by decide, by decide, by decide, denoted_iff_of_bindingsOf hok⟩

/-- A module redeclares an alias. Behind the module the alias means its first declaration, but its
name denotes the second one. -/
theorem denoted_redeclared :
    (∃ file s, parse
        "declare type a = number; declare module \"m\" \x7b type a = string; \x7d declare var x: a;"
        = .ok file ∧
      file.sites[2]? = some s ∧ s.view.meant file.sites 2 s.view.scope "a" = some 0) ∧
    ∃ items, bindingsOf
        "declare type a = number; declare module \"m\" \x7b type a = string; \x7d declare var x: a;"
        = .ok items ∧
      items[2]? = some (.external ⟨none, false, "x", .named "a", false, false⟩) ∧
      denoted items 2 "a" = some 1 := by
  constructor
  · have hmeant : (parse
          "declare type a = number; declare module \"m\" \x7b type a = string; \x7d declare var x: a;"
        ).toOption.bind (fun file =>
          file.sites[2]?.bind fun s => s.view.meant file.sites 2 s.view.scope "a") = some 0 := by
      decide +kernel
    obtain ⟨file, hfile, hmeant⟩ := Option.bind_eq_some_iff.1 hmeant
    obtain ⟨s, hs, hmeant⟩ := Option.bind_eq_some_iff.1 hmeant
    refine ⟨file, s, ?_, hs, hmeant⟩
    generalize parse _ = result at hfile
    cases result with
    | error => cases hfile
    | ok => cases hfile; rfl
  · have hok : bindingsOf
          "declare type a = number; declare module \"m\" \x7b type a = string; \x7d declare var x: a;"
        = .ok [.typeDeclaration ⟨false, "a", [], .named "float"⟩,
          .typeDeclaration ⟨false, "a", [], .named "string"⟩,
          .external ⟨none, false, "x", .named "a", false, false⟩] := by
      decide +kernel
    exact ⟨_, hok, rfl, by decide⟩

end

end Ambient
