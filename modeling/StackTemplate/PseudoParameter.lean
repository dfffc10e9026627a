import StackTemplate.Text.Cut
import StackTemplate.Value

/-!
# Pseudo-parameters

Pseudo-parameters have values although no template declares them. No deployed stack is asked, so
each has a stand-in value; partition, domain suffix and stack id follow the region, and any of
them can be overridden.
-/

namespace StackTemplate

/-- The names that are available in every template. -/
inductive PseudoParameter where
  | accountId
  | notificationArns
  | noValue
  | partition
  | region
  | stackId
  | stackName
  | urlSuffix
deriving DecidableEq, Repr

namespace PseudoParameter

def all : List PseudoParameter :=
  [.accountId, .notificationArns, .noValue, .partition, .region, .stackId, .stackName, .urlSuffix]

theorem mem_all (p : PseudoParameter) : p ∈ all := by
  cases p <;> decide

/-- The name under which a pseudo-parameter is referenced. -/
def name : PseudoParameter → String
  | .accountId => "AWS::AccountId"
  | .notificationArns => "AWS::NotificationARNs"
  | .noValue => "AWS::NoValue"
  | .partition => "AWS::Partition"
  | .region => "AWS::Region"
  | .stackId => "AWS::StackId"
  | .stackName => "AWS::StackName"
  | .urlSuffix => "AWS::URLSuffix"

def ofName? (name : String) : Option PseudoParameter :=
  all.find? fun p => p.name = name

/-- Whether a name lies in the namespace of pseudo-parameters. -/
def inNamespace (name : String) : Bool := Text.beginsWith "AWS::" name

/-- The partition that a region belongs to. -/
def partitionOf (region : String) : String :=
  if Text.beginsWith "cn-" region then "aws-cn"
  else if Text.beginsWith "us-gov-" region then "aws-us-gov"
  else "aws"

/-- The domain suffix of a region. -/
def urlSuffixOf (region : String) : String :=
  if Text.beginsWith "cn-" region then "amazonaws.com.cn" else "amazonaws.com"

end PseudoParameter

/-- The values of the pseudo-parameters: stand-ins, except where they are overridden by name. -/
structure PseudoValues where
  overrides : Dict Value

namespace PseudoValues

instance : Inhabited PseudoValues := ⟨⟨∅⟩⟩

def override (v : PseudoValues) (p : PseudoParameter) (value : Value) : PseudoValues :=
  ⟨v.overrides.insert p.name value⟩

/-- The value of a pseudo-parameter whose stand-in does not depend on others. -/
def basic (v : PseudoValues) (p : PseudoParameter) (standIn : String) : String :=
  (((v.overrides.find? p.name).getD (.string standIn)).text?).getD ""

def region (v : PseudoValues) : String := v.basic .region "us-east-1"

/-- The resource name of the stack. -/
def stackArn (v : PseudoValues) : String :=
  "arn:" ++ PseudoParameter.partitionOf v.region ++ ":cloudformation:" ++ v.region ++ ":" ++
    v.basic .accountId "123456789012" ++ ":stack/" ++ v.basic .stackName "strata" ++
    "/00000000-0000-0000-0000-000000000000"

/-- The stand-in value of a pseudo-parameter. -/
def standIn (v : PseudoValues) : PseudoParameter → Value
  | .accountId => .string "123456789012"
  | .notificationArns => .list []
  | .noValue => .null
  | .partition => .string (PseudoParameter.partitionOf v.region)
  | .region => .string "us-east-1"
  | .stackId => .string v.stackArn
  | .stackName => .string "strata"
  | .urlSuffix => .string (PseudoParameter.urlSuffixOf v.region)

def value (v : PseudoValues) (p : PseudoParameter) : Value :=
  (v.overrides.find? p.name).getD (v.standIn p)

end PseudoValues

end StackTemplate
