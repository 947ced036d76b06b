import Ambient.Command.Run
import Ambient.Proofs.Coverage
import Ambient.Proofs.JsonText
/-!
# What a dump tells

The JSON form of a syntax tree leaves out the spans and nothing else: two trees have the same form
if and only if they have the same erasure (`File.toJson_eq_iff`). Every kind of node has a tag or a
fixed list of fields of its own, what is absent is null and no node is, and all texts, marks and
lists are kept. Since the text of a JSON value shows the value, this holds of the dumped texts too
(`dumped_eq_iff`).
-/

namespace Ambient

open Json (tagged ofString?)

/-! ## Parts without spans -/

@[simp]
theorem Json.tagged_inj {tag tag' : String} {fields fields' : List (String × Json)} :
    tagged tag fields = tagged tag' fields' ↔ tag = tag' ∧ fields = fields' := by
  simp [tagged]

@[simp]
theorem Json.tagged_ne_null (tag : String) (fields : List (String × Json)) :
    tagged tag fields ≠ .null := by
  simp [tagged]

@[simp]
theorem EntityName.toJson_inj {n m : EntityName} : n.toJson = m.toJson ↔ n = m := by
  refine ⟨fun h => ?_, congrArg toJson⟩
  induction n generalizing m with
  | identifier name =>
    cases m with
    | identifier name' => simpa [toJson] using h
    | qualified left right => simp [toJson] at h
  | qualified left right ih =>
    cases m with
    | identifier name => simp [toJson] at h
    | qualified left' right' =>
      obtain ⟨hleft, hright⟩ : left.toJson = left'.toJson ∧ right = right' := by
        simpa [toJson] using h
      rw [ih hleft, hright]

@[simp]
theorem Literal.fields_inj {l m : Literal} : l.fields = m.fields ↔ l = m := by
  cases l <;> cases m <;> simp [fields]

/-! ## Types -/

theorem TypeExpr.toJson_ne_null (t : TypeExpr) : t.toJson ≠ .null := by
  cases t <;> simp [toJson]

mutual

theorem TypeExpr.toJson_eq_iff : (t u : TypeExpr) → (t.toJson = u.toJson ↔ t.erase = u.erase)
  | .reference span name arguments, u => by
    cases u with
    | reference span' name' arguments' =>
      simp [TypeExpr.toJson, TypeExpr.erase, argumentsToJson_eq_iff arguments arguments']
    | _ => simp [TypeExpr.toJson, TypeExpr.erase]
  | .literal span value, u => by
    cases u with
    | literal span' value' => simp [TypeExpr.toJson, TypeExpr.erase]
    | _ => simp [TypeExpr.toJson, TypeExpr.erase]
  | .array span readonly element, u => by
    cases u with
    | array span' readonly' element' =>
      simp [TypeExpr.toJson, TypeExpr.erase, element.toJson_eq_iff element']
    | _ => simp [TypeExpr.toJson, TypeExpr.erase]
  | .tuple span readonly elements, u => by
    cases u with
    | tuple span' readonly' elements' =>
      simp [TypeExpr.toJson, TypeExpr.erase, typesToJson_eq_iff elements elements']
    | _ => simp [TypeExpr.toJson, TypeExpr.erase]
  | .union span arms, u => by
    cases u with
    | union span' arms' => simp [TypeExpr.toJson, TypeExpr.erase, typesToJson_eq_iff arms arms']
    | _ => simp [TypeExpr.toJson, TypeExpr.erase]
  | .intersection span arms, u => by
    cases u with
    | intersection span' arms' =>
      simp [TypeExpr.toJson, TypeExpr.erase, typesToJson_eq_iff arms arms']
    | _ => simp [TypeExpr.toJson, TypeExpr.erase]
  | .function span typeParameters parameters result, u => by
    cases u with
    | function span' typeParameters' parameters' result' =>
      simp [TypeExpr.toJson, TypeExpr.erase,
        typeParametersToJson?_eq_iff typeParameters typeParameters',
        parametersToJson_eq_iff parameters parameters', result.toJson_eq_iff result']
    | _ => simp [TypeExpr.toJson, TypeExpr.erase]
  | .constructor span typeParameters parameters result, u => by
    cases u with
    | constructor span' typeParameters' parameters' result' =>
      simp [TypeExpr.toJson, TypeExpr.erase,
        typeParametersToJson?_eq_iff typeParameters typeParameters',
        parametersToJson_eq_iff parameters parameters', result.toJson_eq_iff result']
    | _ => simp [TypeExpr.toJson, TypeExpr.erase]
  | .object span members, u => by
    cases u with
    | object span' members' =>
      simp [TypeExpr.toJson, TypeExpr.erase, membersToJson_eq_iff members members']
    | _ => simp [TypeExpr.toJson, TypeExpr.erase]
  | .parenthesized span inner, u => by
    cases u with
    | parenthesized span' inner' =>
      simp [TypeExpr.toJson, TypeExpr.erase, inner.toJson_eq_iff inner']
    | _ => simp [TypeExpr.toJson, TypeExpr.erase]
  | .indexedAccess span object index, u => by
    cases u with
    | indexedAccess span' object' index' =>
      simp [TypeExpr.toJson, TypeExpr.erase, object.toJson_eq_iff object',
        index.toJson_eq_iff index']
    | _ => simp [TypeExpr.toJson, TypeExpr.erase]
  | .query span name, u => by
    cases u with
    | query span' name' => simp [TypeExpr.toJson, TypeExpr.erase]
    | _ => simp [TypeExpr.toJson, TypeExpr.erase]
  | .keyOf span operand, u => by
    cases u with
    | keyOf span' operand' => simp [TypeExpr.toJson, TypeExpr.erase, operand.toJson_eq_iff operand']
    | _ => simp [TypeExpr.toJson, TypeExpr.erase]
  | .this span, u => by
    cases u with
    | this span' => simp [TypeExpr.toJson, TypeExpr.erase]
    | _ => simp [TypeExpr.toJson, TypeExpr.erase]

theorem typesToJson_eq_iff : (ts ts' : List TypeExpr) →
    (typesToJson ts = typesToJson ts' ↔ eraseTypes ts = eraseTypes ts')
  | [], [] => by simp [typesToJson, eraseTypes]
  | [], _ :: _ => by simp [typesToJson, eraseTypes]
  | _ :: _, [] => by simp [typesToJson, eraseTypes]
  | t :: ts, t' :: ts' => by
    simp [typesToJson, eraseTypes, t.toJson_eq_iff t', typesToJson_eq_iff ts ts']

theorem typeToJson?_eq_iff : (t t' : Option TypeExpr) →
    (typeToJson? t = typeToJson? t' ↔ eraseType? t = eraseType? t')
  | none, none => by simp [typeToJson?, eraseType?]
  | none, some t' => by simp [typeToJson?, eraseType?, t'.toJson_ne_null.symm]
  | some t, none => by simp [typeToJson?, eraseType?, t.toJson_ne_null]
  | some t, some t' => by simp [typeToJson?, eraseType?, t.toJson_eq_iff t']

theorem argumentsToJson_eq_iff : (arguments arguments' : Option (List TypeExpr)) →
    (argumentsToJson arguments = argumentsToJson arguments' ↔
      eraseArguments arguments = eraseArguments arguments')
  | none, none => by simp [argumentsToJson, eraseArguments]
  | none, some _ => by simp [argumentsToJson, eraseArguments]
  | some _, none => by simp [argumentsToJson, eraseArguments]
  | some ts, some ts' => by simp [argumentsToJson, eraseArguments, typesToJson_eq_iff ts ts']

theorem TypeParameter.toJson_eq_iff : (p p' : TypeParameter) →
    (p.toJson = p'.toJson ↔ p.erase = p'.erase)
  | ⟨_, name, constraint, fallback⟩, ⟨_, name', constraint', fallback'⟩ => by
    simp [TypeParameter.toJson, TypeParameter.erase, typeToJson?_eq_iff constraint constraint',
      typeToJson?_eq_iff fallback fallback']

theorem typeParametersToJson_eq_iff : (ps ps' : List TypeParameter) →
    (typeParametersToJson ps = typeParametersToJson ps' ↔
      eraseTypeParameters ps = eraseTypeParameters ps')
  | [], [] => by simp [typeParametersToJson, eraseTypeParameters]
  | [], _ :: _ => by simp [typeParametersToJson, eraseTypeParameters]
  | _ :: _, [] => by simp [typeParametersToJson, eraseTypeParameters]
  | p :: ps, p' :: ps' => by
    simp [typeParametersToJson, eraseTypeParameters, p.toJson_eq_iff p',
      typeParametersToJson_eq_iff ps ps']

theorem typeParametersToJson?_eq_iff : (ps ps' : Option (List TypeParameter)) →
    (typeParametersToJson? ps = typeParametersToJson? ps' ↔
      eraseTypeParameters? ps = eraseTypeParameters? ps')
  | none, none => by simp [typeParametersToJson?, eraseTypeParameters?]
  | none, some _ => by simp [typeParametersToJson?, eraseTypeParameters?]
  | some _, none => by simp [typeParametersToJson?, eraseTypeParameters?]
  | some ps, some ps' => by
    simp [typeParametersToJson?, eraseTypeParameters?, typeParametersToJson_eq_iff ps ps']

theorem Parameter.toJson_eq_iff : (p p' : Parameter) →
    (p.toJson = p'.toJson ↔ p.erase = p'.erase)
  | ⟨_, name, optional, rest, type⟩, ⟨_, name', optional', rest', type'⟩ => by
    simp [Parameter.toJson, Parameter.erase, typeToJson?_eq_iff type type']

theorem parametersToJson_eq_iff : (ps ps' : List Parameter) →
    (parametersToJson ps = parametersToJson ps' ↔ eraseParameters ps = eraseParameters ps')
  | [], [] => by simp [parametersToJson, eraseParameters]
  | [], _ :: _ => by simp [parametersToJson, eraseParameters]
  | _ :: _, [] => by simp [parametersToJson, eraseParameters]
  | p :: ps, p' :: ps' => by
    simp [parametersToJson, eraseParameters, p.toJson_eq_iff p', parametersToJson_eq_iff ps ps']

theorem Member.toJson_eq_iff : (m m' : Member) → (m.toJson = m'.toJson ↔ m.erase = m'.erase)
  | .property span readonly key optional type, m' => by
    cases m' with
    | property span' readonly' key' optional' type' =>
      simp [Member.toJson, Member.erase, typeToJson?_eq_iff type type']
    | _ => simp [Member.toJson, Member.erase]
  | .method span key optional typeParameters parameters result, m' => by
    cases m' with
    | method span' key' optional' typeParameters' parameters' result' =>
      simp [Member.toJson, Member.erase,
        typeParametersToJson?_eq_iff typeParameters typeParameters',
        parametersToJson_eq_iff parameters parameters', typeToJson?_eq_iff result result']
    | _ => simp [Member.toJson, Member.erase]
  | .call span typeParameters parameters result, m' => by
    cases m' with
    | call span' typeParameters' parameters' result' =>
      simp [Member.toJson, Member.erase,
        typeParametersToJson?_eq_iff typeParameters typeParameters',
        parametersToJson_eq_iff parameters parameters', typeToJson?_eq_iff result result']
    | _ => simp [Member.toJson, Member.erase]
  | .construct span typeParameters parameters result, m' => by
    cases m' with
    | construct span' typeParameters' parameters' result' =>
      simp [Member.toJson, Member.erase,
        typeParametersToJson?_eq_iff typeParameters typeParameters',
        parametersToJson_eq_iff parameters parameters', typeToJson?_eq_iff result result']
    | _ => simp [Member.toJson, Member.erase]
  | .index span readonly parameterName parameterType type, m' => by
    cases m' with
    | index span' readonly' parameterName' parameterType' type' =>
      simp [Member.toJson, Member.erase, parameterType.toJson_eq_iff parameterType',
        type.toJson_eq_iff type']
    | _ => simp [Member.toJson, Member.erase]

theorem membersToJson_eq_iff : (ms ms' : List Member) →
    (membersToJson ms = membersToJson ms' ↔ eraseMembers ms = eraseMembers ms')
  | [], [] => by simp [membersToJson, eraseMembers]
  | [], _ :: _ => by simp [membersToJson, eraseMembers]
  | _ :: _, [] => by simp [membersToJson, eraseMembers]
  | m :: ms, m' :: ms' => by
    simp [membersToJson, eraseMembers, m.toJson_eq_iff m', membersToJson_eq_iff ms ms']

end

/-! ## Statements -/

@[simp]
theorem Json.ofString?_inj {s t : Option String} : ofString? s = ofString? t ↔ s = t := by
  cases s <;> cases t <;> simp [ofString?]

@[simp]
theorem Export.toJson_inj {e f : Export} : e.toJson = f.toJson ↔ e = f := by
  cases e <;> cases f <;> simp [toJson]

@[simp]
theorem VariableWord.toJson_inj {w v : VariableWord} : w.toJson = v.toJson ↔ w = v := by
  cases w <;> cases v <;> simp [toJson]

@[simp]
theorem ModuleName.toJson_inj {n m : ModuleName} : n.toJson = m.toJson ↔ n = m := by
  cases n <;> cases m <;> simp [toJson]

theorem EnumMember.toJson_eq_iff (m m' : EnumMember) :
    m.toJson = m'.toJson ↔ m.erase = m'.erase := by
  obtain ⟨span, name, value⟩ := m
  obtain ⟨span', name', value'⟩ := m'
  have hvalue : (value.map EnumValue.toJson).getD .null = (value'.map EnumValue.toJson).getD .null ↔
      value = value' := by
    rcases value with _ | (_ | _) <;> rcases value' with _ | (_ | _) <;>
      simp [EnumValue.toJson, tagged]
  simp [toJson, erase, hvalue]

theorem ListedName.toJson_eq_iff (n n' : ListedName) :
    n.toJson = n'.toJson ↔ n.erase = n'.erase := by
  simp [toJson, erase]

theorem map_toJson_eq_iff {α : Type} {toJson : α → Json} {erase : α → α}
    (h : ∀ a b, toJson a = toJson b ↔ erase a = erase b) (as bs : List α) :
    as.map toJson = bs.map toJson ↔ as.map erase = bs.map erase := by
  induction as generalizing bs with
  | nil => cases bs <;> simp
  | cons a as ih =>
    cases bs with
    | nil => simp
    | cons b bs => simp [h a b, ih bs]

mutual

theorem Declaration.toJson_eq_iff : (d d' : Declaration) →
    (d.tag = d'.tag ∧ d.fields = d'.fields ↔ d.erase = d'.erase)
  | .ofModule span nameSpan name body, d' => by
    cases d' with
    | ofModule span' nameSpan' name' body' =>
      simp [Declaration.tag, Declaration.fields, Declaration.erase,
        statementsToJson?_eq_iff body body']
    | _ => simp [Declaration.tag, Declaration.erase]
  | .ofVariable v, d' => by
    cases d' with
    | ofVariable v' =>
      simp [Declaration.tag, Declaration.fields, Declaration.erase, Variable.erase,
        typeToJson?_eq_iff v.type v'.type]
    | _ => simp [Declaration.tag, Declaration.erase]
  | .ofFunction f, d' => by
    cases d' with
    | ofFunction f' =>
      simp [Declaration.tag, Declaration.fields, Declaration.erase, Function.erase,
        typeParametersToJson?_eq_iff f.typeParameters f'.typeParameters,
        parametersToJson_eq_iff f.parameters f'.parameters, typeToJson?_eq_iff f.result f'.result]
    | _ => simp [Declaration.tag, Declaration.erase]
  | .ofTypeAlias a, d' => by
    cases d' with
    | ofTypeAlias a' =>
      simp [Declaration.tag, Declaration.fields, Declaration.erase, TypeAlias.erase,
        typeParametersToJson?_eq_iff a.typeParameters a'.typeParameters,
        a.body.toJson_eq_iff a'.body]
    | _ => simp [Declaration.tag, Declaration.erase]
  | .ofInterface i, d' => by
    cases d' with
    | ofInterface i' =>
      simp [Declaration.tag, Declaration.fields, Declaration.erase, Interface.erase,
        typeParametersToJson?_eq_iff i.typeParameters i'.typeParameters,
        typesToJson_eq_iff i.bases i'.bases, membersToJson_eq_iff i.members i'.members]
    | _ => simp [Declaration.tag, Declaration.erase]
  | .ofClass c, d' => by
    cases d' with
    | ofClass c' =>
      simp [Declaration.tag, Declaration.fields, Declaration.erase, Class.erase,
        typeParametersToJson?_eq_iff c.typeParameters c'.typeParameters,
        typeToJson?_eq_iff c.base c'.base, typesToJson_eq_iff c.interfaces c'.interfaces,
        membersToJson_eq_iff c.members c'.members]
    | _ => simp [Declaration.tag, Declaration.erase]
  | .ofEnum e, d' => by
    cases d' with
    | ofEnum e' =>
      simp [Declaration.tag, Declaration.fields, Declaration.erase, Enum.erase,
        map_toJson_eq_iff EnumMember.toJson_eq_iff e.members e'.members]
    | _ => simp [Declaration.tag, Declaration.erase]
  | .ofNamespace span exported name body, d' => by
    cases d' with
    | ofNamespace span' exported' name' body' =>
      simp [Declaration.tag, Declaration.fields, Declaration.erase,
        statementsToJson_eq_iff body body']
    | _ => simp [Declaration.tag, Declaration.erase]
  | .ofGlobal span body, d' => by
    cases d' with
    | ofGlobal span' body' =>
      simp [Declaration.tag, Declaration.fields, Declaration.erase,
        statementsToJson_eq_iff body body']
    | _ => simp [Declaration.tag, Declaration.erase]
  | .empty span, d' => by
    cases d' with
    | empty span' => simp [Declaration.tag, Declaration.fields, Declaration.erase]
    | _ => simp [Declaration.tag, Declaration.erase]
  | .exportAsNamespace span name, d' => by
    cases d' with
    | exportAsNamespace span' name' => simp [Declaration.tag, Declaration.fields, Declaration.erase]
    | _ => simp [Declaration.tag, Declaration.erase]
  | .exportAssignment span name, d' => by
    cases d' with
    | exportAssignment span' name' => simp [Declaration.tag, Declaration.fields, Declaration.erase]
    | _ => simp [Declaration.tag, Declaration.erase]
  | .exportList l, d' => by
    cases d' with
    | exportList l' =>
      simp [Declaration.tag, Declaration.fields, Declaration.erase, ExportList.erase,
        map_toJson_eq_iff ListedName.toJson_eq_iff l.names l'.names]
    | _ => simp [Declaration.tag, Declaration.erase]
  | .importing i, d' => by
    cases d' with
    | importing i' =>
      simp [Declaration.tag, Declaration.fields, Declaration.erase, Import.erase,
        map_toJson_eq_iff ListedName.toJson_eq_iff i.names i'.names]
    | _ => simp [Declaration.tag, Declaration.erase]

theorem Statement.toJson_eq_iff : (s s' : Statement) → (s.toJson = s'.toJson ↔ s.erase = s'.erase)
  | ⟨_, d⟩, ⟨_, d'⟩ => by simp [Statement.toJson, Statement.erase, d.toJson_eq_iff d']

theorem statementsToJson_eq_iff : (ss ss' : List Statement) →
    (statementsToJson ss = statementsToJson ss' ↔ eraseStatements ss = eraseStatements ss')
  | [], [] => by simp [statementsToJson, eraseStatements]
  | [], _ :: _ => by simp [statementsToJson, eraseStatements]
  | _ :: _, [] => by simp [statementsToJson, eraseStatements]
  | s :: ss, s' :: ss' => by
    simp [statementsToJson, eraseStatements, s.toJson_eq_iff s', statementsToJson_eq_iff ss ss']

theorem statementsToJson?_eq_iff : (ss ss' : Option (List Statement)) →
    (statementsToJson? ss = statementsToJson? ss' ↔ eraseStatements? ss = eraseStatements? ss')
  | none, none => by simp [statementsToJson?, eraseStatements?]
  | none, some _ => by simp [statementsToJson?, eraseStatements?]
  | some _, none => by simp [statementsToJson?, eraseStatements?]
  | some ss, some ss' => by
    simp [statementsToJson?, eraseStatements?, statementsToJson_eq_iff ss ss']

end

/-! ## Files -/

theorem File.toJson_eq_iff (f f' : File) : f.toJson = f'.toJson ↔ f.erase = f'.erase := by
  simp [File.toJson, File.erase, statementsToJson_eq_iff f.body f'.body]

/-- What is written for two files that are dumped is the same if and only if their trees differ in
spans only. -/
theorem dumped_eq_iff {a b : String} {f g : File} (hf : parse a = .ok f) (hg : parse b = .ok g)
    (o o' : Command.Options) (ho : o.ast) (ho' : o'.ast) :
    ∃ text text', o.process a = .ok text ∧ o'.process b = .ok text' ∧
      (text = text' ↔ f.erase = g.erase) := by
  refine ⟨f.toJson.text ++ "\n", g.toJson.text ++ "\n", ?_, ?_, ?_⟩
  · rw [Command.Options.process, if_pos ho, hf]
  · rw [Command.Options.process, if_pos ho', hg]
  · rw [← f.toJson_eq_iff g]
    refine ⟨fun h => Json.text_injective ?_, fun h => by rw [h]⟩
    exact (String.append_left_inj "\n").1 h

/-- A module that only announces its name. -/
def announced : String := "declare module \"m\";"

/-- The same module with an empty body. -/
def emptied : String := "declare module \"m\" \x7b\x7d"

/-- What is absent is told apart from what is empty. -/
theorem dumped_eq_iff_absent : ∃ f g text text', parse announced = .ok f ∧ parse emptied = .ok g ∧
    Command.Options.process { ast := true } announced = .ok text ∧
    Command.Options.process { ast := true } emptied = .ok text' ∧
    (text = text' ↔ f.erase = g.erase) ∧ f.erase ≠ g.erase := by
  have hevaluated : (parse announced).toOption.map (·.body.length) = some 1 ∧
      (parse emptied).toOption.map (·.body.length) = some 1 ∧
      (Command.Options.process { ast := true } announced).toOption
        ≠ (Command.Options.process { ast := true } emptied).toOption := by
    decide +kernel
  obtain ⟨f, hf, -⟩ := exists_of_map_toOption hevaluated.1
  obtain ⟨g, hg, -⟩ := exists_of_map_toOption hevaluated.2.1
  obtain ⟨text, text', htext, htext', hiff⟩ :=
    dumped_eq_iff hf hg { ast := true } { ast := true } rfl rfl
  refine ⟨f, g, text, text', hf, hg, htext, htext', hiff, fun herase => hevaluated.2.2 ?_⟩
  rw [htext, htext', hiff.2 herase]

end Ambient
