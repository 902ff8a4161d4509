/-!
# BatchedCommit.KeyScheme

How keys are made and taken apart. A group is opened under a parent key, a zero-padded
counter; a slot in it is named by the full key `<parent><separator><child>`. The first
separator of a full key divides it, so child keys may hold separators of their own.
-/

namespace BatchedCommit

/-- How the emit key of a delayed group follows from the full key of its slot. -/
structure DelayedNaming where
  /-- The emit key for a full key. Where there is none, whoever asks for it breaks down. -/
  key? : String → Option String

namespace DelayedNaming

/-- The full key with a fixed text in front. -/
def prefixed (text : String) : DelayedNaming := ⟨fun fullKey => some (text ++ fullKey)⟩

/-- There is no emit key for any full key. -/
def underivable : DelayedNaming := ⟨fun _ => none⟩

end DelayedNaming

/-- The format of the keys that a committer hands out. -/
structure KeyScheme where
  /-- Parent keys are padded with zeros to this many digits. -/
  width : Nat := 4
  /-- Stands between the parent key and the child key. -/
  separator : Char := ':'
  /-- The counter starts again at zero after this many parent keys. -/
  cycle : Nat := UInt64.size
  /-- The emit keys of delayed groups. -/
  delayed : DelayedNaming := .prefixed ""

/-! ## Padded counters -/

/-- The decimal digits of `n`, with zeros in front up to `width` digits. -/
def paddedDigits (width n : Nat) : List Char :=
  let digits := Nat.toDigits 10 n
  List.replicate (width - digits.length) '0' ++ digits

theorem length_paddedDigits (width n : Nat) :
    (paddedDigits width n).length = max width (Nat.toDigits 10 n).length := by
  simp only [paddedDigits, List.length_append, List.length_replicate]
  omega

namespace KeyScheme

/-! ## Making keys -/

/-- The parent key made when `n` of them have been made before. -/
def parentKey (scheme : KeyScheme) (n : Nat) : String :=
  String.ofList (paddedDigits scheme.width (n % scheme.cycle))

/-- The full key of a child under a parent. Neither part is checked. -/
def fullKey (scheme : KeyScheme) (parent child : String) : String :=
  parent ++ String.singleton scheme.separator ++ child

/-- The key under which a delayed group is emitted, if there is one. -/
def delayedEmitKey? (scheme : KeyScheme) (fullKey : String) : Option String :=
  scheme.delayed.key? fullKey

/-- There is an emit key for every full key. -/
def Derivable (scheme : KeyScheme) : Prop :=
  ∀ fullKey, (scheme.delayedEmitKey? fullKey).isSome = true

theorem derivable_of_prefixed {scheme : KeyScheme} {text : String}
    (h : scheme.delayed = .prefixed text) : scheme.Derivable := by
  intro fullKey
  rw [delayedEmitKey?, h]
  rfl

/-! ## Taking keys apart -/

/-- The parent and the child of a full key: the parts before and after the first separator.
    The parent has to be a non-empty run of decimal digits. -/
def split? (scheme : KeyScheme) (key : String) : Option (String × String) :=
  let parent := key.toList.takeWhile (· != scheme.separator)
  match key.toList.dropWhile (· != scheme.separator) with
  | [] => none
  | _ :: child =>
    if parent.isEmpty || !parent.all Char.isDigit then none
    else some (String.ofList parent, String.ofList child)

/-- The parent key in a full key. -/
def parentOf? (scheme : KeyScheme) (key : String) : Option String :=
  (scheme.split? key).map Prod.fst

/-- The child key in a full key. -/
def childOf? (scheme : KeyScheme) (key : String) : Option String :=
  (scheme.split? key).map Prod.snd

end KeyScheme

end BatchedCommit
