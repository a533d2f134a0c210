/-
# Settings

Models `ConfigStore`, a table of at most 64 settings with `Set`, `HasKey`, `HasSection` and the
`Get` and `Find` calls for each type.  Each setting has a group (the `section`), a key and a value;
groups and keys are kept cut to 63 bytes and values to 255.  A setting is found by comparing the
kept names with the names asked for, without regard to the case of ASCII letters; the first match
counts.
-/
import Intake.Log
import Intake.Text.Bounded
import Intake.Text.Number

namespace Intake

/-- One line of a table of settings. -/
structure Setting where
  group : Bounded 63
  key : Bounded 63
  value : Bounded 255
  deriving DecidableEq, Repr

/-- True when the setting answers to a group and a key. -/
def Setting.answers (e : Setting) (group key : Bytes) : Bool :=
  Ascii.sameText e.key.text key && Ascii.sameText e.group.text group

/-- The most settings that a table holds. -/
def settingsLimit : Nat := 64

/-- A table of settings, in the order in which their names came first. -/
structure Settings where
  entries : List Setting
  length_le : entries.length ≤ settingsLimit
  deriving DecidableEq, Repr

namespace Settings

/-- The empty table. -/
def empty : Settings := ⟨[], by simp [settingsLimit]⟩

instance : Inhabited Settings := ⟨empty⟩

/-- Number of settings. -/
def size (s : Settings) : Nat := s.entries.length

/-- The first setting that answers to a group and a key. -/
def find? (s : Settings) (group key : Bytes) : Option Setting :=
  s.entries.find? fun e => e.answers group key

/-- The kept text of a setting. -/
def value? (s : Settings) (group key : Bytes) : Option Bytes :=
  (s.find? group key).map fun e => e.value.text

def hasKey (s : Settings) (group key : Bytes) : Bool := (s.find? group key).isSome

/-- True when some setting has the group. -/
def hasGroup (s : Settings) (group : Bytes) : Bool :=
  s.entries.any fun e => Ascii.sameText e.group.text group

/-! ## 1. Typed values -/

def text (s : Settings) (group key fallback : Bytes) : Bytes := (s.value? group key).getD fallback

/-- True for numbers of 32 signed bits. -/
def isInt32 (n : Int) : Bool := Int32.minValue.toInt ≤ n && n ≤ Int32.maxValue.toInt

/-- The value as a number of 32 signed bits, if there is one and it reads as such. -/
def findInt (s : Settings) (group key : Bytes) : Option Int :=
  match s.value? group key with
  | none => none
  | some t => (parseSigned t).filter isInt32

/-- The value as a number of 32 signed bits. -/
def int (s : Settings) (group key : Bytes) (fallback : Int) : Int :=
  (s.findInt group key).getD fallback

/-- The value as a number of 64 unsigned bits. -/
def unsigned (s : Settings) (group key : Bytes) (fallback : UInt64) : UInt64 :=
  match s.value? group key with
  | none => fallback
  | some t => (parseUnsigned t).getD fallback

/-- The words that stand for yes. -/
def yesWords : List Bytes := ["true", "yes", "on", "1"].map Bytes.ofAscii

/-- The value as yes or no; every word but those for yes means no. -/
def bool (s : Settings) (group key : Bytes) (fallback : Bool) : Bool :=
  match s.value? group key with
  | none => fallback
  | some t => yesWords.any (Ascii.sameText t)

/-! ## 2. Setting a value -/

/-- Gives a new value to the first setting that answers to a group and a key. -/
def overwrite (group key : Bytes) (value : Bounded 255) : List Setting → List Setting
  | [] => []
  | e :: es =>
    if e.answers group key then { e with value } :: es else e :: overwrite group key value es

theorem length_overwrite (group key : Bytes) (value : Bounded 255) (es : List Setting) :
    (overwrite group key value es).length = es.length := by
  induction es with
  | nil => rfl
  | cons e es ih => unfold overwrite; split <;> simp [ih]

/-- Changes a setting or adds it; `none` when it is new and the table is full. -/
def set? (s : Settings) (group key : Bytes) (value : Option Bytes) : Option Settings :=
  let kept := Bounded.ofBytes? 255 value
  if s.hasKey group key then
    some ⟨overwrite group key kept s.entries, by
      rw [length_overwrite]; exact s.length_le⟩
  else if h : s.entries.length < settingsLimit then
    some ⟨s.entries ++ [⟨.ofBytes 63 group, .ofBytes 63 key, kept⟩], by
      rw [List.length_append, List.length_singleton]; exact h⟩
  else none

/-- Sets a value and tells whether there was room; a setting without room is reported. -/
def put (s : Settings) (log : Log) (group key : Bytes) (value : Option Bytes) :
    Bool × Settings × Log :=
  match s.set? group key value with
  | some s' => (true, s', log)
  | none => (false, s, log.record (.tableFull group key))

end Settings

end Intake
