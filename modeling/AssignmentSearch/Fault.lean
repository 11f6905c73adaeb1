import AssignmentSearch.Datum
import AssignmentSearch.Scenario.Flaw
import AssignmentSearch.Text.Utf8

/-!
# Faults

Why an operation fails. A fault carries its cause; `message` words it and `kind` groups it.
-/

namespace AssignmentSearch

/-- The part of a date or time that lies out of range. -/
inductive CalendarPart where
  | year (given : Nat)
  | month
  | day
  | hour
  | minute
  | second
  /-- A difference from universal time, in seconds, of a day or more. -/
  | offset (seconds : Int)
  deriving DecidableEq, Repr

inductive FaultKind where
  | configuration
  | search
  | value
  | type
  | overflow
  | missingFile
  | isDirectory
  | fileExists
  | notDirectory
  | encoding
  | position
  | key
  | attribute
  | recursion
  | system
  deriving DecidableEq, Repr

inductive Fault where
  /-- A text that is no double. -/
  | malformedFloat (text : String)
  /-- A text that is no integer in the base. -/
  | malformedInt (base : Nat) (text : String)
  /-- An integer with too many digits. -/
  | longInt (digits : Nat)
  /-- An integer with too many digits was to be written. -/
  | unwritable
  /-- A value of a kind that no double can be made of. -/
  | notFloat (kind : String)
  /-- A value of a kind that no integer can be made of. -/
  | notInt (kind : String)
  /-- An integer beyond the range of doubles. -/
  | intTooLarge
  /-- A number whose square is beyond the range of doubles. -/
  | squareTooLarge
  /-- An integer was asked of the value that is no number. -/
  | undefinedInt
  /-- An integer was asked of an infinite value. -/
  | infiniteInt
  /-- A number that is no code point. -/
  | noSuchChar
  /-- A number too large to be tried as a code point. -/
  | codeTooLarge
  /-- An element was asked at a position outside a list. -/
  | noSuchPosition
  /-- A position that is no word of 64 bits. -/
  | positionTooLarge
  /-- A character was asked at a position outside a text. -/
  | noSuchCharacter
  /-- A word that names no value. -/
  | noSuchWord (word : String)
  /-- A text that is no date. -/
  | noDate
  /-- A date was asked of a collection. -/
  | dateOfCollection
  /-- A value that lies too deep to be reached. -/
  | tooDeep
  /-- An index was asked among no positions. -/
  | emptyBound (bound : Datum)
  /-- Values of kinds that have no order. -/
  | notOrdered (operator left right : String)
  /-- Values of kinds that an operator does not join. -/
  | notJoined (operator left right : String)
  /-- A sequence was to be repeated by a value of a kind that does not count. -/
  | notRepeated (kind : String)
  /-- A number was asked of a value of another kind. -/
  | notReal (kind : String)
  /-- A count was asked of a value of a kind that does not count. -/
  | notCount (kind : String)
  /-- A value of a kind that cannot be a key. -/
  | notKey (kind : String)
  /-- A value of a kind that is no path. -/
  | notPath (kind : String)
  /-- A value of a kind that seeds no generator. -/
  | notSeed
  /-- A step was asked of a search that is over. -/
  | terminated
  /-- Fewer than one candidate per step. -/
  | searches (given : Datum)
  | notFinite (initial cold rate : Float)
  | rateRange (rate : Float)
  | notPositive (initial cold : Float)
  | coldNotBelow (cold initial : Float)
  | iterations (given : Datum)
  /-- A scenario that breaks rules on single fields. -/
  | schema (flaws : List Flaw)
  | duplicateIds (list : String) (ids : List Int)
  | fieldNotFinite (field : String) (value : Float)
  | fieldColdNotBelow
  /-- A scenario that is no mapping; `source` names the text it was read from. -/
  | notMapping (source : Option String) (kind : String)
  | malformedScenario (source : String)
  | scenarioKind (kind : String)
  /-- A scenario with a key that is no text. -/
  | keyNotText
  | calendar (part : CalendarPart)
  | missingScenario (path : String)
  | isDirectory (path : String)
  /-- A folder was to be made where a file stands. -/
  | fileExists (path : String)
  /-- A folder was to be made below a file. -/
  | notDirectory (path : String)
  /-- There is nothing at a path. -/
  | nothingThere (path : String)
  /-- An access that was turned down. -/
  | denied (path : String)
  /-- A path, or a name in it, with too many bytes. -/
  | nameTooLong (path : String)
  /-- Bytes that are no text. -/
  | malformedText (flaw : Utf8.Flaw)
  | nullByte
  /-- An assignment into a view that is for reading only. -/
  | readOnly

namespace Fault

def bytesText (f : Utf8.Flaw) : String :=
  (if f.length = 1 then
    "byte 0x" ++ String.ofList (hexDigits 2 f.first.toNat) ++ " in position " ++ toString f.position
  else
    "bytes in position " ++ toString f.position ++ "-" ++ toString (f.position + f.length - 1)) ++
  ": " ++ f.reason.text

/-- A duration as whole days and the seconds left over. -/
def durationText (seconds : Int) : String :=
  let days := seconds.fdiv 86400
  let left := seconds.fmod 86400
  "datetime.timedelta(days=" ++ toString days ++
    (if left = 0 then ")" else ", seconds=" ++ toString left ++ ")")

def calendarText : CalendarPart → String
  | .year given => "year " ++ toString given ++ " is out of range"
  | .month => "month must be in 1..12"
  | .day => "day is out of range for month"
  | .hour => "hour must be in 0..23"
  | .minute => "minute must be in 0..59"
  | .second => "second must be in 0..59"
  | .offset seconds =>
    "offset must be a timedelta strictly between " ++
      "-timedelta(hours=24) and timedelta(hours=24), not " ++
      durationText seconds ++ "."

/-- At most so many characters of a text. -/
def beginning (count : Nat) (text : String) : String := String.ofList (text.toList.take count)

/-- The wording of a fault, without the reports of the markup reader (`malformedScenario`) and of the
checker (`schema`, of which the first line is kept) that follow it. -/
def message : Fault → String
  | malformedFloat text => "could not convert string to float: " ++ quoted text
  | malformedInt base text =>
    "invalid literal for int() with base " ++ toString base ++ ": " ++ beginning 200 (quoted text)
  | longInt digits =>
    "Exceeds the limit (4300 digits) for integer string conversion: value has " ++
      toString digits ++ " digits; use sys.set_int_max_str_digits() to increase the limit"
  | unwritable =>
    "Exceeds the limit (4300 digits) for integer string conversion; " ++
      "use sys.set_int_max_str_digits() to increase the limit"
  | notFloat kind => "float() argument must be a string or a real number, not '" ++ kind ++ "'"
  | notInt kind =>
    "int() argument must be a string, a bytes-like object or a real number, not '" ++ kind ++ "'"
  | intTooLarge => "int too large to convert to float"
  | squareTooLarge => "(34, 'Numerical result out of range')"
  | undefinedInt => "cannot convert float NaN to integer"
  | infiniteInt => "cannot convert float infinity to integer"
  | noSuchChar => "chr() arg not in range(0x110000)"
  | codeTooLarge => "Python int too large to convert to C int"
  | noSuchPosition => "list index out of range"
  | positionTooLarge => "cannot fit 'int' into an index-sized integer"
  | noSuchCharacter => "string index out of range"
  | noSuchWord word => quoted word
  | noDate => "'NoneType' object has no attribute 'groupdict'"
  | dateOfCollection => "expected string or bytes-like object, got 'list'"
  | tooDeep => "maximum recursion depth exceeded while calling a Python object"
  | emptyBound bound => "bound 必须为正整数，但实际为 " ++ bound.text ++ "。"
  | notOrdered operator left right =>
    "'" ++ operator ++ "' not supported between instances of '" ++ left ++ "' and '" ++ right ++ "'"
  | notJoined operator left right =>
    "unsupported operand type(s) for " ++ operator ++ ": '" ++ left ++ "' and '" ++ right ++ "'"
  | notRepeated kind => "can't multiply sequence by non-int of type '" ++ kind ++ "'"
  | notReal kind => "must be real number, not " ++ kind
  | notCount kind => "'" ++ kind ++ "' object cannot be interpreted as an integer"
  | notKey kind => "unhashable type: '" ++ kind ++ "'"
  | notPath kind => "expected str, bytes or os.PathLike object, not " ++ kind
  | notSeed =>
    "The only supported seed types are: None,\nint, float, str, bytes, and bytearray."
  | terminated => "搜索已经结束，不能继续迭代。"
  | searches given => "neighborhood_searches 必须 >= 1，但实际为 " ++ given.text ++ "。"
  | notFinite initial cold rate =>
    "initial_temperature / cold_temperature / cooling_rate 必须为有限数，但实际为 " ++
      plainText initial ++ " / " ++ plainText cold ++ " / " ++ plainText rate ++ "。"
  | rateRange rate => "cooling_rate 必须位于 (0, 1) 区间，但实际为 " ++ plainText rate ++ "。"
  | notPositive initial cold =>
    "initial_temperature 与 cold_temperature 必须为正数，但实际为 " ++ plainText initial ++ " / " ++
      plainText cold ++ "。"
  | coldNotBelow cold initial =>
    "cold_temperature (" ++ plainText cold ++ ") 必须小于 initial_temperature (" ++
      plainText initial ++ ")，否则搜索会立即结束。"
  | iterations given => "max_iterations 必须是 >= 1 的整数，但实际为 " ++ given.text ++ "。"
  | schema flaws => "场景配置不符合要求，请根据错误提示修改：" ++ Flaw.summary flaws
  | duplicateIds list ids =>
    list ++ " 的 id 必须唯一，重复的 id：" ++ (Datum.list (ids.map .int)).text
  | fieldNotFinite field value =>
    "annealing." ++ field ++ " 必须为有限数，但实际为 " ++ plainText value ++ "。"
  | fieldColdNotBelow => "annealing.cold_temperature 必须小于 annealing.initial_temperature。"
  | notMapping none kind => "场景配置的顶层结构必须是映射(dict)，但实际为: <class '" ++ kind ++ "'>"
  | notMapping (some source) kind =>
    "场景配置 " ++ source ++ " 的顶层结构必须是映射(dict)，但实际为: <class '" ++ kind ++ "'>"
  | malformedScenario source => "无法解析场景配置 " ++ source ++ ": "
  | scenarioKind kind => "scenario 类型必须是 str 或 dict，但实际得到: <class '" ++ kind ++ "'>"
  | keyNotText => "keywords must be strings"
  | calendar part => calendarText part
  | missingScenario path => "未找到场景文件: " ++ path
  | isDirectory path => "[Errno 21] Is a directory: " ++ quoted path
  | fileExists path => "[Errno 17] File exists: " ++ quoted path
  | notDirectory path => "[Errno 20] Not a directory: " ++ quoted path
  | nothingThere path => "[Errno 2] No such file or directory: " ++ quoted path
  | denied path => "[Errno 5] Input/output error: " ++ quoted path
  | nameTooLong path => "[Errno 36] File name too long: " ++ quoted path
  | malformedText flaw => "'utf-8' codec can't decode " ++ bytesText flaw
  | nullByte => "embedded null byte"
  | readOnly => "'mappingproxy' object does not support item assignment"

def kind : Fault → FaultKind
  | malformedFloat _ | malformedInt _ _ | longInt _ | unwritable | undefinedInt | noSuchChar
  | emptyBound _ | calendar _ | nullByte => .value
  | notFloat _ | notInt _ | notOrdered _ _ _ | notJoined _ _ _ | notRepeated _ | notReal _
  | notCount _ | notKey _ | notPath _ | notSeed | scenarioKind _ | keyNotText | readOnly
  | dateOfCollection => .type
  | intTooLarge | squareTooLarge | infiniteInt | codeTooLarge => .overflow
  | terminated => .search
  | noSuchPosition | positionTooLarge | noSuchCharacter => .position
  | noSuchWord _ => .key
  | noDate => .attribute
  | tooDeep => .recursion
  | missingScenario _ | nothingThere _ => .missingFile
  | isDirectory _ => .isDirectory
  | fileExists _ => .fileExists
  | notDirectory _ => .notDirectory
  | nameTooLong _ | denied _ => .system
  | malformedText _ => .encoding
  | searches _ | notFinite _ _ _ | rateRange _ | notPositive _ _ | coldNotBelow _ _ | iterations _
  | schema _ | duplicateIds _ _ | fieldNotFinite _ _ | fieldColdNotBelow | notMapping _ _
  | malformedScenario _ => .configuration

end Fault

end AssignmentSearch
