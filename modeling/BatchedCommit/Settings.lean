import BatchedCommit.Failure
import BatchedCommit.Json

/-!
# BatchedCommit.Settings

The five numbers that a committer works by. All of them have to be positive.
-/

namespace BatchedCommit

/-- The names of the five settings, in the order in which they are declared. -/
inductive Setting where
  /-- The number of slots at which the size of a group is fixed. -/
  | slotCapacity
  /-- The age at which the size of a group is fixed anyway, in milliseconds. -/
  | sizeFixMillis
  /-- How long a slot without a value may hold its group back, in milliseconds. -/
  | relocateMillis
  /-- The age at which a group is aborted, in seconds. -/
  | abortSeconds
  /-- The time between two sweeps, in milliseconds. -/
  | sweepMillis
  deriving DecidableEq

namespace Setting

/-- Every setting, in the order of declaration. -/
def all : List Setting := [slotCapacity, sizeFixMillis, relocateMillis, abortSeconds, sweepMillis]

/-- The name of a setting in files and messages. -/
def name : Setting → String
  | slotCapacity => "slot_capacity"
  | sizeFixMillis => "group_size_fix_timeout_millis"
  | relocateMillis => "delayed_slot_move_timeout_millis"
  | abortSeconds => "old_group_abort_timeout_seconds"
  | sweepMillis => "timeout_check_interval_millis"

/-- The value of a setting that is not given. -/
def default : Setting → UInt64
  | slotCapacity => 20
  | sizeFixMillis => 40
  | relocateMillis => 1200
  | abortSeconds => 60
  | sweepMillis => 20

/-- The setting of a given name. -/
def ofName? (text : String) : Option Setting := all.find? (·.name == text)

end Setting

/-- The five numbers that a committer works by. -/
structure Settings where
  /-- The number of slots at which the size of a group is fixed. -/
  slotCapacity : UInt64
  /-- The age at which the size of a group is fixed anyway, in milliseconds. -/
  sizeFixMillis : UInt64
  /-- How long a slot without a value may hold its group back, in milliseconds. -/
  relocateMillis : UInt64
  /-- The age at which a group is aborted, in seconds. -/
  abortSeconds : UInt64
  /-- The time between two sweeps, in milliseconds. -/
  sweepMillis : UInt64
  deriving DecidableEq

namespace Settings

/-- The settings with a given value for each name. -/
def ofValues (value : Setting → UInt64) : Settings where
  slotCapacity := value .slotCapacity
  sizeFixMillis := value .sizeFixMillis
  relocateMillis := value .relocateMillis
  abortSeconds := value .abortSeconds
  sweepMillis := value .sweepMillis

/-- The settings of a committer for which nothing was given. -/
def default : Settings := ofValues Setting.default

/-- The value of a setting. -/
def get (settings : Settings) : Setting → UInt64
  | .slotCapacity => settings.slotCapacity
  | .sizeFixMillis => settings.sizeFixMillis
  | .relocateMillis => settings.relocateMillis
  | .abortSeconds => settings.abortSeconds
  | .sweepMillis => settings.sweepMillis

@[simp] theorem get_ofValues (value : Setting → UInt64) (setting : Setting) :
    (ofValues value).get setting = value setting := by
  cases setting <;> rfl

@[simp] theorem ofValues_get (settings : Settings) : ofValues settings.get = settings := rfl

/-! ## Validity -/

/-- The failure that a zero in a setting causes. -/
def zeroFailure (setting : Setting) : Failure :=
  .invalidSettings (setting.name ++ " must be > 0")

/-- Refuses settings with a zero, and names the first one in the order of declaration. -/
def validate (settings : Settings) : Except Failure Unit :=
  match Setting.all.find? (settings.get · == 0) with
  | some setting => .error (zeroFailure setting)
  | none => .ok ()

/-! ## Windows of time -/

/-- The age at which the size of a group is fixed, in milliseconds. -/
def sizeFixWindow (settings : Settings) : Nat := settings.sizeFixMillis.toNat

/-- How long a slot may hold its group back, in milliseconds. -/
def relocateWindow (settings : Settings) : Nat := settings.relocateMillis.toNat

/-- The age at which a group is aborted, in milliseconds. -/
def abortWindow (settings : Settings) : Nat := 1000 * settings.abortSeconds.toNat

/-- The time between two sweeps, in milliseconds. -/
def sweepInterval (settings : Settings) : Nat := settings.sweepMillis.toNat

/-! ## Written form -/

/-- The settings as an object, in the order of declaration. -/
def toJson (settings : Settings) : Json :=
  .obj (Setting.all.map fun setting => (setting.name, .int (settings.get setting).toNat))

/-- The settings on one line. -/
def text (settings : Settings) : String := settings.toJson.compactText

end Settings

end BatchedCommit
