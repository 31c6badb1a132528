import Phrasing.Branch.Basic
import Phrasing.Value.Basic

/-!
What can go wrong with a template, a condition or an argument list, and the texts that tell it.
-/

namespace Phrasing

inductive Expectation where
  | target
  | colon
  | operator
  | brace
  | comparison

inductive RangeFault where
  | noLow
  | noSeparator
  | brokenSeparator
  | pointAfterHigh
  | noHigh
  | strayCharacter
  | noRange
  | badLow
  | badHigh

/-- What is wrong with the text of a template. -/
inductive Defect where
  | unclosedQuote
  | emptyCondition
  | unexpected (found : Char) (wanted : Expectation)
  | endsEarly (wanted : Expectation)
  | emptyPointer
  | badPointer (text : String)
  | noOperator
  | badOperator (token : String)
  | noOperand
  | badRange (fault : RangeFault)
  | noResult
  | noFallback
  | fallbackNotLast

/-- What is wrong with the structure of a condition. -/
inductive Flaw where
  | noBranches
  | noFallback
  | blankFallback
  | blankResult (index : Nat)
  | mismatched (index : Nat) (operator : Operator) (operand : Operand)
  | strayRange
  | notRange (operand : Operand)
  | incomplete

/-- Why a template was not read, stored, found or rendered. -/
inductive Failure where
  /-- The text is wrong at the character with that offset. -/
  | malformed (offset : Nat) (defect : Defect)
  | unsound (flaw : Flaw)
  | missingArgument (index count : Nat)
  | nullArgument (index : Nat)
  | mismatch (target operand : Kind)
  /-- A range was asked of something that is no number. -/
  | rangeMismatch (target : Kind)
  | unsupported (operator : Operator) (kind : Kind)
  | emptyRange (low high : Binary64)
  | unknownTemplate (name : String)

deriving instance DecidableEq for Expectation, RangeFault, Defect, Flaw, Failure

deriving instance Inhabited for Expectation, RangeFault, Defect, Flaw, Failure

namespace Expectation

def text : Expectation → String
  | target => "指针 '\x7bi\x7d' 或 else 标记 '*'"
  | colon => "':'"
  | operator => "比较操作符"
  | brace => "'\x7d'"
  | comparison => "比较操作符、比较对象和 ':'"

end Expectation

namespace RangeFault

def text : RangeFault → String
  | noLow => "缺少范围起始值"
  | noSeparator => "缺少范围分隔符 '..'"
  | brokenSeparator => "期望范围分隔符 '..'"
  | pointAfterHigh => "范围结束值之后期望 ':'"
  | noHigh => "缺少范围结束值"
  | strayCharacter => "范围定义中只允许数字和 '..'"
  | noRange => "范围定义缺失"
  | badLow => "无效的范围起始值"
  | badHigh => "无效的范围结束值"

end RangeFault

namespace Defect

def text : Defect → String
  | unclosedQuote => "引号未闭合"
  | emptyCondition => "条件体为空"
  | unexpected found wanted => "意外的字符 '" ++ found.toString ++ "', 期望 " ++ wanted.text
  | endsEarly wanted => "条件意外结束, 期望 " ++ wanted.text
  | emptyPointer => "空指针 \x7b\x7d"
  | badPointer s => "无效的指针 '" ++ s ++ "'"
  | noOperator => "缺少比较操作符"
  | badOperator token => "无效的比较操作符 '" ++ token ++ "'"
  | noOperand => "缺少比较对象"
  | badRange fault => "无效的范围定义: " ++ fault.text
  | noResult => "分支结果为空"
  | noFallback => "缺少 else 分支"
  | fallbackNotLast => "else 分支必须是条件的最后一个分支"

end Defect

namespace Flaw

def text : Flaw → String
  | noBranches => "缺少条件分支"
  | noFallback => "缺少 else 分支"
  | blankFallback => "else 分支结果为空"
  | blankResult index => "分支 " ++ toString index ++ " 结果为空"
  | mismatched index operator operand =>
    "分支 " ++ toString index ++ " 的操作符 " ++ operator.token ++ " 与比较对象 " ++
      String.ofList operand.write ++ " 不匹配"
  | strayRange => "范围比较对象只能与 ~ 操作符搭配"
  | notRange operand =>
    "范围操作符需要 low..high 比较对象, 实际为 " ++ String.ofList operand.write
  | incomplete => "分支不完整"

end Flaw

namespace Failure

def message : Failure → String
  | malformed offset defect =>
    "语法错误: " ++ defect.text ++ " (位置 " ++ toString offset ++ ")"
  | unsound flaw => "条件结构无效: " ++ flaw.text
  | missingArgument index count =>
    "参数不足: 指针 \x7b" ++ toString index ++ "\x7d 超出范围, 共 " ++ toString count ++ " 个参数"
  | nullArgument index => "参数为空: 下标 " ++ toString index ++ " 处的参数不能为 null"
  | mismatch target operand => "类型不匹配: 无法比较 " ++ target.name ++ " 与 " ++ operand.name
  | rangeMismatch target => "类型不匹配: 无法比较 " ++ target.name ++ " 与 range"
  | unsupported operator kind => "无效的操作符: " ++ operator.token ++ " 不支持类型 " ++ kind.name
  | emptyRange low high =>
    "无效的范围: 下限 " ++ String.ofList (Layout.positional.write low) ++ " 必须小于上限 " ++
      String.ofList (Layout.positional.write high)
  | unknownTemplate name => "模板未找到: " ++ name

def offset? : Failure → Option Nat
  | malformed offset _ => some offset
  | _ => none

/-- Whether the template is to blame, and not the arguments or the store. -/
def isTemplateFault : Failure → Bool
  | malformed .. | unsound _ => true
  | _ => false

end Failure

end Phrasing
