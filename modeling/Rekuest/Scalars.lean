import Mathlib.Data.List.Basic

/-!
# Search queries

`SearchQuery.validate` of `rekuest/scalars.py`: the GraphQL query that fills the choices of a search
widget. Its checks go by the places of the variables and selections, and are compared below with the
grammar that the class documents. They look at the type of `$search` twice and at that of `$values`
never, at no type's name, and at the first selection only.
-/

namespace Rekuest

/-! ## The syntax tree of `graphql` -/

namespace GraphQL

/-- A `ValueNode`. -/
inductive Value
  | variable (name : String)
  | int (text : String)
  | float (text : String)
  | string (text : String) (block : Bool)
  | boolean (b : Bool)
  | null
  | enum (name : String)
  | list (values : List Value)
  | object (fields : List (String × Value))

/-- An `ArgumentNode`. -/
structure Argument where
  name : String
  value : Value

/-- A `DirectiveNode`. -/
structure Directive where
  name : String
  arguments : List Argument

/-- A `TypeNode`. -/
inductive TypeNode
  | named (name : String)
  | list (type : TypeNode)
  | nonNull (type : TypeNode)
deriving DecidableEq

/-- `type.kind`. -/
def TypeNode.kind : TypeNode → String
  | .named _ => "named_type"
  | .list _ => "list_type"
  | .nonNull _ => "non_null_type"

theorem TypeNode.kind_eq_named {type : TypeNode} :
    type.kind = "named_type" ↔ ∃ name, type = .named name := by
  cases type <;> simp [TypeNode.kind]

/-- A `VariableDefinitionNode`. -/
structure VariableDefinition where
  /-- `variable.name.value`. -/
  variableName : String
  type : TypeNode
  defaultValue : Option Value
  directives : List Directive

/-- A `SelectionNode`; a selection set is the list of its selections. -/
inductive Selection
  | field (fieldAlias : Option String) (name : String) (arguments : List Argument)
      (directives : List Directive) (selectionSet : Option (List Selection))
  | fragmentSpread (name : String) (directives : List Directive)
  | inlineFragment (typeCondition : Option String) (directives : List Directive)
      (selectionSet : List Selection)

/-- `field.alias.value if field.alias else field.name.value`, of a `FieldNode`. -/
def Selection.responseName : Selection → Option String
  | .field fieldAlias name _ _ _ => some (fieldAlias.getD name)
  | .fragmentSpread _ _ | .inlineFragment _ _ _ => none

inductive OperationType
  | query
  | mutation
  | subscription
deriving DecidableEq

/-- An `OperationDefinitionNode`. -/
structure OperationDefinition where
  operation : OperationType
  name : Option String
  variableDefinitions : List VariableDefinition
  directives : List Directive
  selectionSet : List Selection

/-- A `DefinitionNode`. -/
inductive Definition
  | operation (operation : OperationDefinition)
  | fragment (name typeCondition : String) (directives : List Directive)
      (selectionSet : List Selection)
  /-- A definition or an extension of a type system. -/
  | typeSystem (text : String)

/-- A `DocumentNode`. -/
structure Document where
  definitions : List Definition

/-- A `GraphQLSyntaxError`: `repr` of it, and its source locations as they are printed. -/
structure SyntaxError where
  repr : String
  locations : List String

end GraphQL

open GraphQL

/-- What is used of `graphql`. -/
structure GraphQLCore where
  parse : String → Except SyntaxError Document
  printAst : Document → String

/-- An exception of `SearchQuery.validate`. -/
inductive SearchQueryError
  | valueError (message : String)
  | indexError
deriving DecidableEq

/-- `SearchQueryCoercible`, and values that are neither of its types. -/
inductive SearchQueryCoercible
  | text (v : String)
  | document (v : Document)
  | other

namespace GraphQLCore

variable (lib : GraphQLCore)

/-- `parse_or_raise`. -/
def parseOrRaise (v : String) : Except SearchQueryError Document :=
  match lib.parse v with
  | .ok document => .ok document
  | .error e =>
    let x := e.repr ++ "\n" ++ v ++ "\n" ++ String.join (e.locations.map fun loc => "\n" ++ loc)
    .error (.valueError ("Could not parse to graphql: \n" ++ x))

/-- The document that is checked. -/
def coerce : SearchQueryCoercible → Except SearchQueryError Document
  | .text v => lib.parseOrRaise v
  | .document v => .ok v
  | .other =>
    .error (.valueError "Search query must be either a str or a graphql DocumentAction")

end GraphQLCore

namespace SearchQuery

variable (lib : GraphQLCore)

/-- A `ValueError` that shows the document. -/
def wasGiven (v : Document) (message : String) : SearchQueryError :=
  .valueError (message ++ "Was given: " ++ lib.printAst v)

/-- The checks of `definition.variable_definitions`. -/
def checkVariables (v : Document) : List VariableDefinition → Except SearchQueryError Unit
  | first :: second :: _ =>
    if first.variableName ≠ "search" ∨ first.type.kind ≠ "named_type" then
      .error (wasGiven lib v ("First parameter of search function should be '$search: String' " ++
        "if you provide arguments for your options. This parameter will be filled with " ++
        "userinput: "))
    -- the kind asked for is that of the first variable again
    else if second.variableName ≠ "values" ∨ first.type.kind ≠ "named_type" then
      .error (wasGiven lib v ("Seconrd parameter of search function should be '$values: [ID]' " ++
        "if you provide arguments for your options. This parameter will be filled with the " ++
        "default values: "))
    else .ok ()
  | _ =>
    .error (wasGiven lib v
      "At least two arguments should be provided ($search: String, $values: [ID])): ")

/-- The checks of the aliases in `wrapped_selection`. -/
def checkAliases (wrappedSelection : List Selection) : Except SearchQueryError Unit :=
  let aliases := wrappedSelection.filterMap Selection.responseName
  if "value" ∉ aliases then
    .error (.valueError ("Searched query needs to contain a 'value' not that corresponds to the " ++
      "selected value"))
  else if "label" ∉ aliases then
    .error (.valueError ("Searched query needs to contain a 'label' that corresponds to the " ++
      "displayed value to the user"))
  else .ok ()

/-- The checks of `definition.selection_set.selections`. -/
def checkSelections (v : Document) : List Selection → Except SearchQueryError Unit
  | [] => .error .indexError
  | .field fieldAlias name _ _ selectionSet :: _ =>
    if fieldAlias.getD name ≠ "options" then
      .error (wasGiven lib v "First element of query should be 'options':  ")
    else
      match selectionSet with
      | none => .error (wasGiven lib v "Wrapped query should contain a selection set: ")
      | some wrappedSelection => checkAliases wrappedSelection
  | _ => .error (wasGiven lib v "Wrapped query should be a field node: ")

/-- The checks of the definition. -/
def checkDefinition (v : Document) : Definition → Except SearchQueryError Unit
  | .operation definition =>
    if definition.operation ≠ .query then .error (.valueError "Needs to be operation")
    else do
      checkVariables lib v definition.variableDefinitions
      checkSelections lib v definition.selectionSet
  | _ => .error (.valueError "Needs an operation")

/-- `SearchQuery.validate`; a search query is its text. -/
def validate (v : SearchQueryCoercible) : Except SearchQueryError String := do
  let v ← lib.coerce v
  match v.definitions with
  | [definition] =>
    checkDefinition lib v definition
    return lib.printAst v
  | _ => .error (.valueError "Only one definintion allowed")

/-! ## The documented grammar -/

/-- The selections hold a field of the name. -/
def HasField (selections : List Selection) (name : String) : Prop :=
  ∃ selection ∈ selections, selection.responseName = some name

/-- A field named or aliased `options`, of fields `value` and `label`. -/
def IsOptions : Selection → Prop
  | .field fieldAlias name _ _ (some selections) =>
    fieldAlias.getD name = "options" ∧ HasField selections "value" ∧ HasField selections "label"
  | _ => False

/-- The operation is a query over `$search`, `$values` and any further variables, with the types
as `SearchType` and `ValuesType` say, of options with other selections as `Others` says. -/
structure Form (SearchType ValuesType : TypeNode → Prop) (Others : List Selection → Prop)
    (o : OperationDefinition) : Prop where
  query : o.operation = .query
  variableDefinitions : ∃ search values further,
    o.variableDefinitions = search :: values :: further ∧
    search.variableName = "search" ∧ SearchType search.type ∧
    values.variableName = "values" ∧ ValuesType values.type
  selectionSet : ∃ options others, o.selectionSet = options :: others ∧ IsOptions options ∧
    Others others

/-- What `SearchQuery` documents: one operation, with a `$search` of type `String`, a `$values` of a
list type, and a single selection. -/
def Grammar (d : Document) : Prop :=
  ∃ o, d.definitions = [.operation o] ∧
    Form (fun type => type = .named "String") (fun type => ∃ item, type = .list item)
      (fun others => others = []) o

/-- The form that is left where the types' names, the type of `$values` and further selections are
not looked at. -/
def LooseForm (d : Document) : Prop :=
  ∃ o, d.definitions = [.operation o] ∧
    Form (fun type => ∃ name, type = .named name) (fun _ => True) (fun _ => True) o

/-- The first variable of the operation is a `String` and the second a list, and the operation has
one selection. -/
structure Typed (o : OperationDefinition) : Prop where
  search : ∀ v ∈ o.variableDefinitions[0]?, v.type = .named "String"
  values : ∀ v ∈ o.variableDefinitions[1]?, ∃ item, v.type = .list item
  single : o.selectionSet.length = 1

variable {lib} {d : Document} {o : OperationDefinition} {v : SearchQueryCoercible} {q : String}

theorem hasField_iff {selections : List Selection} {name : String} :
    HasField selections name ↔ name ∈ selections.filterMap Selection.responseName := by
  rw [List.mem_filterMap, HasField]

theorem checkVariables_eq_ok {l : List VariableDefinition} :
    checkVariables lib d l = .ok () ↔
      ∃ search values further, l = search :: values :: further ∧
        search.variableName = "search" ∧ (∃ name, search.type = .named name) ∧
        values.variableName = "values" := by
  constructor
  · intro h
    unfold checkVariables at h
    split at h
    case h_2 => cases h
    case h_1 first second further =>
      split at h
      · cases h
      · next hfirst =>
        split at h
        · cases h
        · next hsecond =>
          simp only [ne_eq, not_or, not_not] at hfirst hsecond
          exact ⟨first, second, further, rfl, hfirst.1, TypeNode.kind_eq_named.mp hfirst.2,
            hsecond.1⟩
  · rintro ⟨search, values, further, rfl, hsearch, ⟨name, hname⟩, hvalues⟩
    simp [checkVariables, hsearch, hname, hvalues, TypeNode.kind]

theorem checkAliases_eq_ok {selections : List Selection} :
    checkAliases selections = .ok () ↔
      HasField selections "value" ∧ HasField selections "label" := by
  rw [hasField_iff, hasField_iff]
  unfold checkAliases
  dsimp only
  split
  case isTrue hvalue => simp [hvalue]
  case isFalse hvalue =>
    rw [not_not] at hvalue
    split
    case isTrue hlabel => simp [hlabel]
    case isFalse hlabel => simpa [hvalue] using hlabel

theorem checkSelections_eq_ok {l : List Selection} :
    checkSelections lib d l = .ok () ↔
      ∃ options others, l = options :: others ∧ IsOptions options := by
  constructor
  · intro h
    unfold checkSelections at h
    split at h
    case h_1 | h_3 => cases h
    case h_2 fieldAlias name arguments directives selectionSet others =>
      split at h
      · cases h
      · next hname =>
        split at h
        case h_1 => cases h
        case h_2 selections =>
          exact ⟨_, others, rfl, not_not.mp hname, checkAliases_eq_ok.mp h⟩
  · rintro ⟨options, others, rfl, hoptions⟩
    cases options with
    | fragmentSpread | inlineFragment => exact hoptions.elim
    | field fieldAlias name arguments directives selectionSet =>
      cases selectionSet with
      | none => exact hoptions.elim
      | some selections =>
        obtain ⟨hname, hfields⟩ := hoptions
        simpa [checkSelections, hname] using checkAliases_eq_ok.mpr hfields

/-- A query document of the loose form passes the checks, and no other. -/
theorem checkDefinition_eq_ok {definition : Definition} :
    checkDefinition lib d definition = .ok () ↔
      ∃ o, definition = .operation o ∧
        Form (fun type => ∃ name, type = .named name) (fun _ => True) (fun _ => True) o := by
  constructor
  · intro h
    unfold checkDefinition at h
    split at h
    case h_2 => cases h
    case h_1 o =>
      split at h
      · cases h
      · next hquery =>
        cases hvariables : checkVariables lib d o.variableDefinitions with
        | error e => simp [hvariables, bind, Except.bind] at h
        | ok u =>
          have hselections : checkSelections lib d o.selectionSet = .ok () := by
            simpa [hvariables, bind, Except.bind] using h
          obtain ⟨search, values, further, hl, hsearch, htype, hvalues⟩ :=
            checkVariables_eq_ok.mp hvariables
          obtain ⟨options, others, hs, hoptions⟩ := checkSelections_eq_ok.mp hselections
          exact ⟨o, rfl, not_not.mp hquery,
            ⟨search, values, further, hl, hsearch, htype, hvalues, trivial⟩,
            ⟨options, others, hs, hoptions, trivial⟩⟩
  · rintro ⟨o, rfl, hquery, ⟨search, values, further, hl, hsearch, htype, hvalues, -⟩,
      ⟨options, others, hs, hoptions, -⟩⟩
    have hvariables : checkVariables lib d o.variableDefinitions = .ok () :=
      checkVariables_eq_ok.mpr ⟨search, values, further, hl, hsearch, htype, hvalues⟩
    have hselections : checkSelections lib d o.selectionSet = .ok () :=
      checkSelections_eq_ok.mpr ⟨options, others, hs, hoptions⟩
    simp [checkDefinition, hquery, hvariables, hselections, bind, Except.bind]

/-- What `validate` accepts, and returns. -/
theorem validate_eq_ok (hv : lib.coerce v = .ok d) :
    validate lib v = .ok q ↔ LooseForm d ∧ q = lib.printAst d := by
  simp only [validate, hv, bind, Except.bind]
  split
  case h_1 definition hdefinitions =>
    cases hcheck : checkDefinition lib d definition with
    | error e =>
      have hnot : ¬ LooseForm d := by
        rintro ⟨o, ho, hform⟩
        obtain rfl : definition = .operation o := by simpa [hdefinitions] using ho
        have hok : checkDefinition lib d (.operation o) = .ok () :=
          checkDefinition_eq_ok.mpr ⟨o, rfl, hform⟩
        rw [hcheck] at hok
        cases hok
      simp [hnot]
    | ok u =>
      obtain ⟨o, rfl, hform⟩ := checkDefinition_eq_ok.mp hcheck
      have hloose : LooseForm d := ⟨o, hdefinitions, hform⟩
      simp [hloose, pure, Except.pure, eq_comm]
  case h_2 hother =>
    have hnot : ¬ LooseForm d := by
      rintro ⟨o, ho, -⟩
      exact hother _ ho
    simp [hnot]

/-- The grammar is the loose form with the types and the one selection it asks for. -/
theorem grammar_iff :
    Grammar d ↔ LooseForm d ∧ ∀ o, d.definitions = [.operation o] → Typed o := by
  constructor
  · rintro ⟨o, ho, hquery, ⟨search, values, further, hl, hsearch, htype, hvalues, hlist⟩,
      ⟨options, others, hs, hoptions, rfl⟩⟩
    refine ⟨⟨o, ho, hquery, ⟨search, values, further, hl, hsearch, ⟨_, htype⟩, hvalues, trivial⟩,
      ⟨options, [], hs, hoptions, trivial⟩⟩, ?_⟩
    intro o' ho'
    obtain rfl : o = o' := by simpa [ho] using ho'
    refine ⟨?_, ?_, by simp [hs]⟩
    · intro v hv
      obtain rfl : search = v := by simpa [hl] using hv
      exact htype
    · intro v hv
      obtain rfl : values = v := by simpa [hl] using hv
      exact hlist
  · rintro ⟨⟨o, ho, hquery, ⟨search, values, further, hl, hsearch, -, hvalues, -⟩,
      ⟨options, others, hs, hoptions, -⟩⟩, htyped⟩
    have htyped := htyped o ho
    have hsingle : others = [] := by simpa [hs] using htyped.single
    exact ⟨o, ho, hquery,
      ⟨search, values, further, hl, hsearch, htyped.search search (by simp [hl]), hvalues,
        htyped.values values (by simp [hl])⟩,
      ⟨options, others, hs, hoptions, hsingle⟩⟩

/-- `SearchQuery` accepts a document exactly if it is of the documented grammar, where one of the
loose form has the types and the one selection that are asked for. -/
theorem accepts_grammar_iff (lib : GraphQLCore) (v : SearchQueryCoercible) (d : Document)
    (hv : lib.coerce v = .ok d) (hinverse : Grammar d → lib.parse (lib.printAst d) = .ok d) :
    ((∀ q, validate lib v = .ok q → Grammar d ∧ lib.parse q = .ok d) ∧
      (Grammar d → ∃ q, validate lib v = .ok q)) ↔
    (LooseForm d → ∀ o, d.definitions = [.operation o] → Typed o) := by
  constructor
  · rintro ⟨hsound, -⟩ hloose
    obtain ⟨hgrammar, -⟩ := hsound _ ((validate_eq_ok hv).mpr ⟨hloose, rfl⟩)
    exact (grammar_iff.mp hgrammar).2
  · intro htyped
    refine ⟨?_, ?_⟩
    · intro q hq
      obtain ⟨hloose, rfl⟩ := (validate_eq_ok hv).mp hq
      have hgrammar : Grammar d := grammar_iff.mpr ⟨hloose, htyped hloose⟩
      exact ⟨hgrammar, hinverse hgrammar⟩
    · intro hgrammar
      exact ⟨_, (validate_eq_ok hv).mpr ⟨(grammar_iff.mp hgrammar).1, rfl⟩⟩

/-- A library that knows one document, and its text. -/
def knowing (d : Document) (text : String) : GraphQLCore where
  parse v := if v = text then .ok d else .error ⟨"GraphQLSyntaxError('Syntax Error.')", []⟩
  printAst _ := text

/-- A query for the fields `value` and `label` of `options`, and other selections. -/
def queryOf (search values : TypeNode) (others : List Selection) : Document where
  definitions := [.operation
    { operation := .query
      name := none
      variableDefinitions := [⟨"search", search, none, []⟩, ⟨"values", values, none, []⟩]
      directives := []
      selectionSet := .field none "options" [] []
        (some [.field none "value" [] [] none, .field none "label" [] [] none]) :: others }]

/-- Its text, with those of the types and of the other selections. -/
def queryText (search values others : String) : String :=
  "query ($search: " ++ search ++ ", $values: " ++ values ++
    ") \x7b\n  options \x7b\n    value\n    label\n  \x7d\n" ++ others ++ "\x7d"

theorem looseForm_queryOf (name : String) (values : TypeNode) (others : List Selection) :
    LooseForm (queryOf (.named name) values others) := by
  refine ⟨_, rfl, rfl, ⟨_, _, _, rfl, rfl, ⟨_, rfl⟩, rfl, trivial⟩, ⟨_, _, rfl, ?_, trivial⟩⟩
  exact ⟨rfl, ⟨_, List.mem_cons_self, rfl⟩, ⟨_, List.mem_cons_of_mem _ List.mem_cons_self, rfl⟩⟩

/-- The library at a query of the grammar. -/
def knownSearch : GraphQLCore :=
  knowing (queryOf (.named "String") (.list (.named "ID")) []) (queryText "String" "[ID]" "")

theorem accepts_grammar_iff_knownSearch :
    validate knownSearch (.text (queryText "String" "[ID]" "")) =
        .ok (queryText "String" "[ID]" "") ∧
      Grammar (queryOf (.named "String") (.list (.named "ID")) []) := by
  have hv : knownSearch.coerce (.text (queryText "String" "[ID]" "")) =
      .ok (queryOf (.named "String") (.list (.named "ID")) []) := by
    simp [GraphQLCore.coerce, GraphQLCore.parseOrRaise, knownSearch, knowing]
  have haccepted : validate knownSearch (.text (queryText "String" "[ID]" "")) =
      .ok (queryText "String" "[ID]" "") :=
    (validate_eq_ok hv).mpr ⟨looseForm_queryOf _ _ _, rfl⟩
  have hiff := accepts_grammar_iff _ _ _ hv fun _ => by simp [knownSearch, knowing]
  refine ⟨haccepted, ((hiff.mpr ?_).1 _ haccepted).1⟩
  intro _ o ho
  obtain rfl := Definition.operation.inj (List.cons.inj ho).1
  exact ⟨by rintro v ⟨⟩; rfl, by rintro v ⟨⟩; exact ⟨_, rfl⟩, rfl⟩

/-- The library at a query that searches by an `Int`. -/
def intSearch : GraphQLCore :=
  knowing (queryOf (.named "Int") (.list (.named "ID")) []) (queryText "Int" "[ID]" "")

/-- The library at a query of a single value. -/
def singleValue : GraphQLCore :=
  knowing (queryOf (.named "String") (.named "ID") []) (queryText "String" "ID" "")

/-- The library at a query that selects another field. -/
def otherField : GraphQLCore :=
  knowing (queryOf (.named "String") (.list (.named "ID")) [.field none "other" [] [] none])
    (queryText "String" "[ID]" "  other\n")

/-- Queries are accepted that search by an `Int`, take a single value, or select another field. -/
theorem ill_typed_queries_accepted :
    (∃ q, validate intSearch (.text (queryText "Int" "[ID]" "")) = .ok q ∧
      ∀ d, intSearch.parse q = .ok d → ¬ Grammar d) ∧
    (∃ q, validate singleValue (.text (queryText "String" "ID" "")) = .ok q ∧
      ∀ d, singleValue.parse q = .ok d → ¬ Grammar d) ∧
    ∃ q, validate otherField (.text (queryText "String" "[ID]" "  other\n")) = .ok q ∧
      ∀ d, otherField.parse q = .ok d → ¬ Grammar d := by
  have haccepted : ∀ name values others text,
      validate (knowing (queryOf (.named name) values others) text) (.text text) = .ok text := by
    intro name values others text
    refine (validate_eq_ok (d := queryOf (.named name) values others) ?_).mpr
      ⟨looseForm_queryOf _ _ _, rfl⟩
    simp [GraphQLCore.coerce, GraphQLCore.parseOrRaise, knowing]
  refine ⟨⟨_, haccepted _ _ _ _, ?_⟩, ⟨_, haccepted _ _ _ _, ?_⟩, ⟨_, haccepted _ _ _ _, ?_⟩⟩
  all_goals
    intro d hd hgrammar
    obtain rfl : _ = d := by simpa [intSearch, singleValue, otherField, knowing] using hd
    have htyped := (grammar_iff.mp hgrammar).2 _ rfl
  · have htype := htyped.search _ rfl
    simp at htype
  · obtain ⟨item, hitem⟩ := htyped.values _ rfl
    simp at hitem
  · have hsingle := htyped.single
    simp at hsingle

end SearchQuery

end Rekuest
