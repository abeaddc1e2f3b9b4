import LaunchDist.Action
/-!
# Which events are shown

A log setting is a list of rules between commas. A rule sets the level up to which events are shown,
for all topics or for those that begin in a certain way; of the rules for a topic, the one that says
the most about it counts.
-/
namespace LaunchDist

/-- The level up to which the events of some topics are shown, if they are shown at all. -/
structure LogRule where
  /-- What the topics begin with; nothing if the rule is for all of them. -/
  topic : List Char
  level : Option Level
  deriving DecidableEq, Repr

namespace Level

/-- The number that a text of digits gives, with or without a plus sign. -/
def number? (text : List Char) : Option Nat :=
  let digits := if text.head? = some '+' then text.tail else text
  if digits = [] ∨ !digits.all Char.isDigit then none
  else some (digits.foldl (fun n c => n * 10 + (c.toNat - '0'.toNat)) 0)

/-- The level that a text means, by its number or by its name in letters of any case; off is a level
here, too. -/
def ofSetting? (text : List Char) : Option (Option Level) :=
  let numbered := [none, some .error, some .warn, some .info, some .debug, some .trace]
  match (number? text).bind (numbered[·]?) with
  | some level => some level
  | none => [("off", none), ("error", some .error), ("warn", some .warn), ("info", some .info),
      ("debug", some .debug), ("trace", some .trace)].lookup (String.ofList (text.map Char.toLower))

end Level

namespace LogRule

/-- The rule for all topics. -/
def forAll (level : Option Level) : LogRule :=
  ⟨[], level⟩

/-- Whether a rule may begin with the character. -/
def canBegin (c : Char) : Bool :=
  c.isAlphanum || 128 ≤ c.toNat || ['-', ':', '_', '['].contains c

/-- The rule with a topic before an equals sign and a level, which may be missing, after it. -/
def ofParts? (topic level : List Char) : Option LogRule :=
  if level = [] then some ⟨topic, some .trace⟩
  else (Level.ofSetting? level).map fun level => ⟨topic, level⟩

/-- The rule that a text means: a level, a topic or both. The equals sign is counted from the first
character that is not blank, although the blanks belong to the text. -/
def ofText? (text : List Char) : Option LogRule :=
  let trimmed := (Text.trim (String.ofList text)).toList
  if !(trimmed.head?.map canBegin).getD false then none
  else if trimmed.contains '=' then
    let before := (trimmed.takeWhile (· ≠ '=')).length
    ofParts? (text.take before) (text.drop (before + 1))
  else match Level.ofSetting? text with
    | some level => some (forAll level)
    | none => some ⟨text, some .trace⟩

/-- The rules that a setting means, if every one of them means something; with none at all, only
errors are shown. -/
def listOf? (setting : String) : Option (List LogRule) :=
  match (setting.toList.splitOn ',').filter (· ≠ []) with
  | [] => some [forAll (some .error)]
  | texts => texts.mapM ofText?

/-- The rule that says more about a topic; of two that say as much, the later one. -/
def moreSpecific (found : Option LogRule) (rule : LogRule) : Option LogRule :=
  match found with
  | some other => if other.topic.length ≤ rule.topic.length then some rule else some other
  | none => some rule

/-- The level up to which the events of a topic are shown. -/
def levelFor (rules : List LogRule) (topic : String) : Option Level :=
  let fitting := rules.filter fun rule => rule.topic.isPrefixOf topic.toList
  (fitting.foldl moreSpecific none).bind level

end LogRule

/-- Whether the event is shown under some rules. -/
def Event.isShown (rules : List LogRule) (e : Event) : Bool :=
  match LogRule.levelFor rules e.topic with
  | some upTo => e.level.rank ≤ upTo.rank
  | none => false

end LaunchDist
