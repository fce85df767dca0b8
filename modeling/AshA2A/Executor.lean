import AshA2A.Json
import AshA2A.UniqueBy
import AshA2A.Value

/-! The two ways by which a message reaches an Ash action, and the schema that is advertised for its skill. The arguments of an
action have atoms for names; what comes over the wire has texts. -/

namespace AshA2A

/-- A key of an argument map. -/
inductive ArgumentKey where
  | wire (name : String)
  | argument (name : String)
  deriving Repr, DecidableEq

/-- A map of arguments, which Ash is handed. -/
abbrev Arguments := ArgumentKey → Option Value

inductive MessagePart where
  | data (data : Arguments)
  | other

/-- Wire names with the arguments they stand for. -/
structure ArgumentMapping where
  entries : List (String × String)
  distinct : (entries.map Prod.fst).Nodup

def ArgumentMapping.empty : ArgumentMapping := ⟨[], List.nodup_nil⟩

namespace Dispatcher

/-- The first data part of the message. -/
def fetchInput (parts : List MessagePart) : Arguments :=
  (parts.findSome? fun
    | .data data => some data
    | .other => none).getD fun _ => none

/-- What `run_skill/4` hands to the code that runs the action. -/
def input (parts : List MessagePart) : Arguments := fetchInput parts

end Dispatcher

namespace Executor

/-- `Map.pop/2` answers nil as well where the value is nil. -/
def rename (args : Arguments) (wire argument : String) : Arguments :=
  match args (.wire wire) with
  | none | some (.atom "nil") => args
  | some value => Function.update (Function.update args (.wire wire) none) (.argument argument) (some value)

def applyArgumentMapping (input : Arguments) (mapping : ArgumentMapping) : Arguments :=
  mapping.entries.foldl (fun args (wire, argument) => rename args wire argument) input

/-- What `run_action/5` hands to the code that runs the action; a mapping among the options comes before the one of the skill. -/
def coerceArguments (parts : List MessagePart) (skillMapping : ArgumentMapping) (mapping : Option ArgumentMapping) : Arguments :=
  applyArgumentMapping (Dispatcher.fetchInput parts) (mapping.getD skillMapping)

end Executor

namespace Schema

/-- What `for_action/3` projects of an action: each name has one property. -/
structure ObjectSchema where
  properties : List (String × Json)
  distinct : (properties.map Prod.fst).Nodup
  required : List String

def wireName (mapping : ArgumentMapping) (argument : String) : String :=
  ((mapping.entries.find? fun entry => entry.2 = argument).map Prod.fst).getD argument

/-- `Map.new/2`: the last entry of a key is kept. -/
def newMap (entries : List (String × Json)) : List (String × Json) := UniqueBy.uniqBy Prod.fst entries.reverse

def forSkill (mapping : ArgumentMapping) (schema : ObjectSchema) : ObjectSchema where
  properties := newMap (schema.properties.map fun (name, sub) => (wireName mapping name, sub))
  distinct := UniqueBy.uniqBy_nodup
  required := schema.required.map (wireName mapping)

end Schema

end AshA2A
