import StaticQuery.Language.Selection

/-!
Why a document cannot be compiled. Any of these ends the compilation of the whole document.
-/

namespace StaticQuery

inductive FragmentKind where
  | spread
  | inline
deriving DecidableEq

def FragmentKind.text : FragmentKind → String
  | .spread => "fragment spread"
  | .inline => "inline fragment"

inductive NumberKind where
  | int
  | float
deriving DecidableEq

def NumberKind.text : NumberKind → String
  | .int => "int"
  | .float => "float"

inductive Imbalance where
  | noAccumulatorToClose
  | noAccumulatorForField
  | noFrameToClose
  | noFrameForField
  | framesLeftOpen
  | accumulatorsLeftOpen
deriving DecidableEq

def Imbalance.text : Imbalance → String
  | .noAccumulatorToClose => "selection accumulator stack is empty"
  | .noAccumulatorForField => "no selection accumulator for field"
  | .noFrameToClose => "compile frame stack is empty"
  | .noFrameForField => "no compile frame for field"
  | .framesLeftOpen => "compile frames left open after operation"
  | .accumulatorsLeftOpen => "selection accumulators left open after operation"

inductive CompileError where
  | invalidDocument
  | unsupportedOperationKind (kind : OperationKind)
  | missingOperationName
  | missingTypeBinding (field parent : Name)
  | unsupportedArgumentKind (kind : Value.Kind) (argument field : Name)
  | invalidArgumentLiteral (kind : NumberKind) (text : String) (argument : Name)
  | unsupportedSelection (kind : FragmentKind)
  | unsupportedListField (field : Name) (type : TypeRef)
  | unsupportedAbstractType (field type : Name)
  | recursionLimitExceeded (limit : Nat)
  | stackImbalance (imbalance : Imbalance)
deriving DecidableEq

namespace CompileError

def message : CompileError → String
  | .invalidDocument => "parsing error"
  | .unsupportedOperationKind kind =>
      kind.text ++ " operations are not supported, only queries can be compiled"
  | .missingOperationName => "operations must be named to be compiled"
  | .missingTypeBinding field parent =>
      "no type binding for field '" ++ field.text ++ "' on type '" ++ parent.text ++ "'"
  | .unsupportedArgumentKind kind argument field =>
      "unsupported-argument-kind: " ++ kind.text ++ " value for argument '" ++ argument.text ++
        "' of field '" ++ field.text ++ "'"
  | .invalidArgumentLiteral kind text argument =>
      "invalid " ++ kind.text ++ " literal '" ++ text ++ "' for argument '" ++ argument.text ++ "'"
  | .unsupportedSelection kind => kind.text ++ " selections are not supported"
  | .unsupportedListField field type =>
      "field '" ++ field.text ++ "' has list type " ++ type.render ++
        " of objects, which cannot be compiled"
  | .unsupportedAbstractType field type =>
      "field '" ++ field.text ++ "' has abstract type '" ++ type.text ++
        "', which cannot be compiled"
  | .recursionLimitExceeded limit =>
      "selection processing recursion limit(" ++ String.ofList (Nat.toDigits 10 limit) ++
        ") exceeded"
  | .stackImbalance imbalance => "compile stacks are unbalanced: " ++ imbalance.text

end CompileError

end StaticQuery
