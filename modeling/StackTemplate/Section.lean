import StackTemplate.Call

/-!
# Sections and contexts

A template document is divided into sections. The section decides which functions may be called in
it, and whether a mapping with the single key `Condition` is a call; both may also depend on the
function whose operand is read. A context says where in a document a node is read.
-/

namespace StackTemplate

/-- The top-level sections of a template document. -/
inductive Section where
  | formatVersion
  | description
  | metadata
  | rules
  | transform
  | parameters
  | mappings
  | conditions
  | resources
  | outputs
deriving DecidableEq, Repr

/-- The reasons for which a function may not be called. -/
inductive Restriction where
  /-- Conditions precede resources and exports. -/
  | precedesResources
  /-- Conditions are named inside of boolean functions only. -/
  | outsideBoolean
  /-- The section holds literal data. -/
  | literalSection
deriving DecidableEq, Repr

def Restriction.reason : Restriction → String
  | .precedesResources => "conditions are evaluated before any resource or export exists"
  | .outsideBoolean =>
    "a condition reference is only valid inside `Fn::And`, `Fn::Or` or `Fn::Not`"
  | .literalSection =>
    "intrinsic functions are only evaluated in Conditions, Resources and Outputs"

namespace Section

/-- Every section, in the order in which keys are recognised. -/
def all : List Section :=
  [.formatVersion, .description, .metadata, .rules, .transform, .parameters, .mappings,
    .conditions, .resources, .outputs]

def key : Section → String
  | .formatVersion => "AWSTemplateFormatVersion"
  | .description => "Description"
  | .metadata => "Metadata"
  | .rules => "Rules"
  | .transform => "Transform"
  | .parameters => "Parameters"
  | .mappings => "Mappings"
  | .conditions => "Conditions"
  | .resources => "Resources"
  | .outputs => "Outputs"

def ofKey? (key : String) : Option Section := all.find? fun s => s.key = key

/-- Whether the operands of a function may name conditions outside of the Conditions section. -/
def ownsConditions (owner : Option Intrinsic) : Bool :=
  owner = some .and || owner = some .or || owner = some .not

/-- The reason for which a function may not be called in a section as an operand of `owner`. -/
def restriction? (s : Section) (function : Intrinsic) (owner : Option Intrinsic) :
    Option Restriction :=
  match s with
  | .conditions =>
    match function with
    | .getAtt | .importValue => some .precedesResources
    | _ => none
  | .resources | .outputs =>
    match function with
    | .condition => if ownsConditions owner then none else some .outsideBoolean
    | _ => none
  | _ => some .literalSection

/-- Whether a mapping with the single key `Condition` is a call. -/
def readsConditionKey (s : Section) (owner : Option Intrinsic) : Bool :=
  match s with
  | .conditions => true
  | .resources | .outputs => ownsConditions owner
  | _ => false

end Section

/-- Where in a document a node is read: the section, the path, and the function whose operand the
node is. -/
structure Context where
  area : Section
  path : String
  owner : Option Intrinsic
deriving DecidableEq, Repr

namespace Context

/-- A context outside of any call. -/
def root (area : Section) (path : String) : Context := ⟨area, path, none⟩

/-- The context of an operand of the same call. -/
def child (c : Context) (segment : String) : Context := { c with path := c.path ++ segment }

/-- The context of a member of a plain collection, which is no operand of the call around it. -/
def plain (c : Context) (segment : String) : Context :=
  { c with path := c.path ++ segment, owner := none }

/-- The context of the operands of a call. -/
def within (c : Context) (function : Intrinsic) : Context :=
  { c with path := c.path ++ "::" ++ function.shortName, owner := some function }

end Context

end StackTemplate
