import Unravel.Pass.Inlining.References

/-!
Contract: putting arguments in the place of parameters.

`substitute` looks into identifiers, literals and binary, logical, call and
member expressions. Any other expression stays as it is when it does not refer
to a parameter, and admits no substitution when it does; nor does a call of a
parameter. A parameter whose argument is null stays as it is. The result is made
for its place: arguments and what is not looked into are copied, and of what is
looked into the objects alone, with the parts that have been built for them. Their
other attributes are shared with the expression.

`substitutionFault?` finds what keeps a malformed expression from being looked
into. Operands and parts of members are all looked into, while a call is given
up at the first part that admits no substitution.
-/

namespace Unravel.Value

abbrev Substitution := Names Value

theorem sizeOf_items_lt {value : Value} {kind : String} (name : String)
    (isNode : value.kind? = some kind) :
    sizeOf (value.attr name).items < sizeOf value := by
  have smaller := sizeOf_attr_lt_of_kind? name isNode
  cases found : value.attr name <;> rw [found] at smaller <;> simp [items] at smaller ⊢ <;> omega

/-- A text that is not empty; its characters are no expressions. -/
def isFilledText : Value → Bool
  | .text value => value != ""
  | _ => false

/-- A copy of an object alone, with two attributes that are built for it. -/
def rebuild (value : Value) (first second : String) (inFirst inSecond : Fresh Value) :
    Fresh Value := do
  let one ← inFirst
  let other ← inSecond
  return ((← value.copyShallow).setAttr first one).setAttr second other

mutual

def substitute (arguments : Substitution) (value : Value) : Option (Fresh Value) :=
  match _isNode : value.kind? with
  | none => none
  | some kind =>
    if kind = "Identifier" then
      match value.name?.bind (Names.get? arguments) with
      | none | some .null => some value.copy
      | some argument => some argument.copy
    else if kind = "Literal" then some value.copy
    else if kind = "BinaryExpression" || kind = "LogicalExpression" then
      match substitute arguments (value.attr "left"),
        substitute arguments (value.attr "right") with
      | some left, some right => some (value.rebuild "left" "right" left right)
      | _, _ => none
    else if kind = "CallExpression" then
      let callee :=
        match (value.attr "callee").identifier? with
        | some name =>
          if (Names.get? arguments name).isSome then none else some (value.attr "callee").copy
        | none => substitute arguments (value.attr "callee")
      let replaced :=
        if (value.attr "arguments").isFilledText then none
        else substituteAll arguments (value.attr "arguments").items
      match callee, replaced with
      | some callee, some replaced =>
        some (value.rebuild "callee" "arguments" callee (.list <$> replaced))
      | _, _ => none
    else if kind = "MemberExpression" then
      let property :=
        if (value.attr "computed").truthy then substitute arguments (value.attr "property")
        else if (value.attr "property").isNull then none
        else some (value.attr "property").copy
      match substitute arguments (value.attr "object"), property with
      | some object, some property => some (value.rebuild "object" "property" object property)
      | _, _ => none
    else if value.mentions (Names.keys arguments) then none
    else some value.copy
termination_by sizeOf value
decreasing_by
  all_goals first
    | exact sizeOf_attr_lt_of_kind? _ _isNode
    | exact sizeOf_items_lt _ _isNode

def substituteAll (arguments : Substitution) (values : List Value) :
    Option (Fresh (List Value)) :=
  match values with
  | [] => some (pure [])
  | value :: rest =>
    match substitute arguments value, substituteAll arguments rest with
    | some replaced, some others => some do
        let replaced ← replaced
        return replaced :: (← others)
    | _, _ => none
termination_by sizeOf values
decreasing_by
  all_goals simp
  all_goals omega

end

/-! ## Malformed expressions -/

mutual

/-- What keeps an expression from being looked into. -/
def substitutionFault? (arguments : Substitution) (value : Value) : Option SortFault :=
  match _isNode : value.kind? with
  | none => none
  | some kind =>
    if kind = "Identifier" then value.nameFault?
    else if kind = "Literal" then none
    else if kind = "BinaryExpression" || kind = "LogicalExpression" then
      (substitutionFault? arguments (value.attr "left")).or
        (substitutionFault? arguments (value.attr "right"))
    else if kind = "CallExpression" then
      let callee := value.attr "callee"
      let inArguments :=
        (value.attr "arguments").anyIterationFault?.or
          (substitutionFaultAll? arguments (value.attr "arguments").items)
      if callee.isIdentifier then
        callee.nameFault?.or (if callee.isOneOf (Names.keys arguments) then none else inArguments)
      else
        (substitutionFault? arguments callee).or
          (if (callee.substitute arguments).isNone then none else inArguments)
    else if kind = "MemberExpression" then
      (substitutionFault? arguments (value.attr "object")).or
        (if (value.attr "computed").truthy then
          substitutionFault? arguments (value.attr "property")
        else none)
    else value.mentionFault? (Names.keys arguments)
termination_by sizeOf value
decreasing_by
  all_goals first
    | exact sizeOf_attr_lt_of_kind? _ _isNode
    | exact sizeOf_items_lt _ _isNode

/-- What keeps the first of some expressions, up to one that admits no
substitution, from being looked into. -/
def substitutionFaultAll? (arguments : Substitution) (values : List Value) : Option SortFault :=
  match values with
  | [] => none
  | value :: rest =>
    (substitutionFault? arguments value).or
      (if (value.substitute arguments).isNone then none
      else substitutionFaultAll? arguments rest)
termination_by sizeOf values
decreasing_by
  all_goals simp
  all_goals omega

end

end Unravel.Value
