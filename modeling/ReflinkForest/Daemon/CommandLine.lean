import ReflinkForest.Daemon.JobRecord
import ReflinkForest.Git.TreeObject

/-! The socket protocol: one line of words separated by single spaces, with byte fields in lower-
case hexadecimal. -/
namespace ReflinkForest
open Bytes List

inductive DaemonCommand where
  | status
  | enqueueOperationalGc
  | enqueueCachePressure (projectedAllocationBytes : UInt64)
  | enqueue (kind payload : Str)
  | get (id : JobId)
  | start (id : JobId)
  | succeed (id : JobId)
  | fail (id : JobId) (error : Str)
  | retry (id : JobId)
  deriving DecidableEq

inductive DaemonCommandParseError where
  | invalid | unsupported
  deriving DecidableEq

namespace Daemon
def hexNibble (value : UInt8) : Option UInt8 :=
  if 0x30 ≤ value ∧ value ≤ 0x39 then some (value - 0x30)
  else if 0x61 ≤ value ∧ value ≤ 0x66 then some (value - 0x61 + 10)
  else none

/-- The loop over `chunks_exact(2)`. -/
def hexPairs : Str → Option Str
  | high :: low :: rest => do
    let high ← hexNibble high
    let low ← hexNibble low
    let bytes ← hexPairs rest
    some (((high <<< 4) ||| low) :: bytes)
  | _ => some []

def parseHexBytes (value : Str) (allowEmpty : Bool) : Except DaemonCommandParseError Str := do
  .require (¬((¬allowEmpty ∧ value = []) ∨ value.length % 2 ≠ 0)) .invalid
  .ofOption .invalid (hexPairs value)

def parseJobId (value : Str) : Option JobId := do
  if value.length ≠ 32 then none
  else
    let bytes ← hexPairs value
    some ⟨sliceVec bytes 0 16⟩

def parseCommandJobId (value : Str) : Except DaemonCommandParseError JobId :=
  .ofOption .invalid (parseJobId value)

def isAsciiDigit (byte : UInt8) : Bool := 0x30 ≤ byte ∧ byte ≤ 0x39

def decimalValue (digits : Str) : ℕ :=
  digits.foldl (fun value digit => 10 * value + (digit.toNat - 0x30)) 0

def parseDecimalU64 (value : Str) : Except DaemonCommandParseError UInt64 := do
  .require (¬(value = [] ∨ ¬value.all isAsciiDigit)) .invalid
  .require (decimalValue value < 2 ^ 64) .invalid
  .ok (UInt64.ofNat (decimalValue value))

def parseFields : List Str → Except DaemonCommandParseError DaemonCommand
  | [first] => if first = ascii "status" then .ok .status else .error .unsupported
  | [first, second] =>
    if first = ascii "maintenance" ∧ second = ascii "gc" then .ok .enqueueOperationalGc
    else .error .unsupported
  | [first, second, third] =>
    if first = ascii "maintenance" ∧ second = ascii "cache-pressure" then
      .enqueueCachePressure <$> parseDecimalU64 third
    else if first = ascii "job" ∧ second = ascii "get" then .get <$> parseCommandJobId third
    else if first = ascii "job" ∧ second = ascii "start" then .start <$> parseCommandJobId third
    else if first = ascii "job" ∧ second = ascii "succeed" then
      .succeed <$> parseCommandJobId third
    else if first = ascii "job" ∧ second = ascii "retry" then .retry <$> parseCommandJobId third
    else .error .unsupported
  | [first, second, third, fourth] =>
    if first = ascii "job" ∧ second = ascii "enqueue" then do
      let kind ← parseHexBytes third false
      let payload ← parseHexBytes fourth true
      .ok (.enqueue kind payload)
    else if first = ascii "job" ∧ second = ascii "fail" then do
      let id ← parseCommandJobId third
      let error ← parseHexBytes fourth false
      .ok (.fail id error)
    else .error .unsupported
  | _ => .error .unsupported

def parseDaemonCommand (request : Str) : Except DaemonCommandParseError DaemonCommand := do
  .require (¬(request = [] ∨ ∃ byte ∈ request, byte = 0x0a ∨ byte = 0x0d ∨ byte = 0x09))
    .invalid
  let fields := request.splitOn 0x20
  .require (∀ field ∈ fields, field ≠ []) .invalid
  parseFields fields
end Daemon

namespace DaemonCommand
def hex (bytes : Str) : Str := bytes.flatMap hexPair

/-- The words that say a command. -/
def words : DaemonCommand → List Str
  | status => [ascii "status"]
  | enqueueOperationalGc => [ascii "maintenance", ascii "gc"]
  | enqueueCachePressure bytes =>
    [ascii "maintenance", ascii "cache-pressure", decimal bytes.toNat]
  | enqueue kind payload => [ascii "job", ascii "enqueue", hex kind, hex payload]
  | get id => [ascii "job", ascii "get", hex id.bytes.toList]
  | start id => [ascii "job", ascii "start", hex id.bytes.toList]
  | succeed id => [ascii "job", ascii "succeed", hex id.bytes.toList]
  | fail id error => [ascii "job", ascii "fail", hex id.bytes.toList, hex error]
  | retry id => [ascii "job", ascii "retry", hex id.bytes.toList]

def line (command : DaemonCommand) : Str := [0x20].intercalate command.words

/-- The job kind and the failure error, where there is one, are not empty. -/
def Stated : DaemonCommand → Prop
  | enqueue kind _ => kind ≠ []
  | fail _ error => error ≠ []
  | _ => True
end DaemonCommand

section Fields
open Daemon DaemonCommand Except

/-- No byte of the word separates words or ends the line. -/
def Printable (word : Str) : Bool := word.all (0x20 < ·)

theorem hexNibble_hexPair (byte : UInt8) :
    hexNibble (byteAt hexAlphabet (byte >>> 4).toNat) = some (byte >>> 4) ∧
      hexNibble (byteAt hexAlphabet (byte &&& 0x0f).toNat) = some (byte &&& 0x0f) ∧
      Printable (hexPair byte) := by
  have each : ∀ n < 256,
      hexNibble (byteAt hexAlphabet (UInt8.ofNat n >>> 4).toNat) = some (UInt8.ofNat n >>> 4) ∧
        hexNibble (byteAt hexAlphabet (UInt8.ofNat n &&& 0x0f).toNat) =
          some (UInt8.ofNat n &&& 0x0f) ∧ Printable (hexPair (UInt8.ofNat n)) := by
    decide +kernel
  simpa using each byte.toNat byte.toNat_lt

theorem hexPairs_hex (bytes : Str) : Daemon.hexPairs (hex bytes) = some bytes := by
  induction bytes with
  | nil => rfl
  | cons byte bytes ih =>
    obtain ⟨high, low, _⟩ := hexNibble_hexPair byte
    have joined := (hexDigit_hexPair byte).2.2
    change Daemon.hexPairs (_ :: _ :: hex bytes) = _
    rw [Daemon.hexPairs, high, low, ih]
    exact congrArg (fun byte => some (byte :: bytes)) joined

theorem length_hex (bytes : Str) : (hex bytes).length = 2 * bytes.length := by
  simp [hex, hexPair, length_flatMap, Nat.mul_comm]

theorem hex_eq_nil {bytes : Str} : hex bytes = [] ↔ bytes = [] := by
  rw [← length_eq_zero_iff, length_hex, ← length_eq_zero_iff]
  omega

theorem printable_hex (bytes : Str) : Printable (hex bytes) := by
  rw [Printable, hex, all_flatMap, all_eq_true]
  exact fun byte _ => (hexNibble_hexPair byte).2.2

theorem parseHexBytes_hex {bytes : Str} {allowEmpty : Bool} (kept : allowEmpty ∨ bytes ≠ []) :
    parseHexBytes (hex bytes) allowEmpty = .ok bytes := by
  rw [parseHexBytes, require_pos, ok_bind, hexPairs_hex]
  · rfl
  · rw [hex_eq_nil, length_hex]
    grind

theorem parseCommandJobId_hex (id : JobId) : parseCommandJobId (hex id.bytes.toList) = .ok id := by
  have whole : sliceVec id.bytes.toList 0 16 = id.bytes := by
    apply List.Vector.toList_injective
    rw [toList_sliceVec (by simp), slice_self (by simp)]
  simp [parseCommandJobId, parseJobId, length_hex, hexPairs_hex, whole, ofOption]

theorem isAsciiDigit_ofNat {c : Char} (digit : c.isDigit) :
    isAsciiDigit (UInt8.ofNat c.toNat) ∧ (UInt8.ofNat c.toNat).toNat = c.toNat := by
  have range : 48 ≤ c.toNat ∧ c.toNat ≤ 57 := Char.isDigit_iff_toNat.mp digit
  generalize c.toNat = code at range ⊢
  obtain ⟨low, high⟩ := range
  interval_cases code <;> decide

theorem isAsciiDigit_decimal {n : ℕ} {digit : UInt8} (mem : digit ∈ decimal n) :
    isAsciiDigit digit := by
  obtain ⟨c, digit, rfl⟩ := mem_map.mp mem
  exact (isAsciiDigit_ofNat (Nat.isDigit_of_mem_toDigits (b := 10) (by decide) (by decide) digit)).1

theorem printable_decimal (n : ℕ) : Printable (decimal n) := by
  rw [Printable, all_eq_true]
  intro digit mem
  have range := isAsciiDigit_decimal mem
  simp only [isAsciiDigit, decide_eq_true_eq] at range ⊢
  exact lt_of_lt_of_le (by decide) range.1

theorem decimalValue_decimal (n : ℕ) : decimalValue (decimal n) = n := by
  rw [decimalValue, decimal, foldl_map]
  refine Eq.trans ?_ (Nat.ofDigitChars_toDigits (b := 10) (by decide) (by decide))
  apply foldl_ext
  intro value c mem
  have digit : c.isDigit := Nat.isDigit_of_mem_toDigits (by decide) (by decide) mem
  rw [(isAsciiDigit_ofNat digit).2]
  rfl

theorem parseDecimalU64_decimal (n : UInt64) : parseDecimalU64 (decimal n.toNat) = .ok n := by
  rw [parseDecimalU64, require_pos, ok_bind, decimalValue_decimal, require_pos n.toNat_lt]
  · simp
  · rw [not_or, not_not, all_eq_true]
    exact ⟨by simp [decimal, Nat.toDigits_ne_nil], fun _ => isAsciiDigit_decimal⟩
end Fields

section Lines
open Daemon DaemonCommand Except

variable {command : DaemonCommand}

theorem printable_words : ∀ word ∈ command.words, Printable word := by
  cases command <;> simp +decide [words, printable_hex, printable_decimal]

theorem parseFields_words (stated : command.Stated) : parseFields command.words = .ok command := by
  cases command with
  | enqueue kind payload =>
    have kind : parseHexBytes (hex kind) false = .ok kind := parseHexBytes_hex (.inr stated)
    simp +decide [words, parseFields, kind, parseHexBytes_hex]
  | fail id reason =>
    have reason : parseHexBytes (hex reason) false = .ok reason := parseHexBytes_hex (.inr stated)
    simp +decide [words, parseFields, parseCommandJobId_hex, reason]
  | _ => simp +decide [words, parseFields, parseDecimalU64_decimal, parseCommandJobId_hex]

theorem le_of_mem_line {words : List Str} (printable : ∀ word ∈ words, Printable word)
    {byte : UInt8}
    (mem : byte ∈ [0x20].intercalate words) : 0x20 ≤ byte := by
  induction words with
  | nil => simp [List.intercalate] at mem
  | cons word words ih =>
    rw [forall_mem_cons] at printable
    have here (inside : byte ∈ word) : 0x20 ≤ byte :=
      le_of_lt (of_decide_eq_true (all_eq_true.mp printable.1 byte inside))
    cases words with
    | nil => exact here (by simpa [List.intercalate] using mem)
    | cons next words =>
      rw [intercalate_cons_cons, mem_append, mem_append, mem_singleton] at mem
      rcases mem with (inside | rfl) | later
      · exact here inside
      · exact le_rfl
      · exact ih printable.2 later

theorem parseDaemonCommand_line (command : DaemonCommand) : parseDaemonCommand command.line =
    (Except.require (∀ word ∈ command.words, word ≠ []) .invalid >>= fun _ =>
      parseFields command.words) := by
  have unspaced : ∀ word ∈ command.words, (0x20 : UInt8) ∉ word := by
    intro word mem space
    exact absurd (all_eq_true.mp (printable_words word mem) _ space) (by decide)
  have nonempty : command.words ≠ [] := by cases command <;> simp [words]
  have fields : command.line.splitOn 0x20 = command.words :=
    splitOn_intercalate 0x20 unspaced nonempty
  have whole : ¬(command.line = [] ∨
      ∃ byte ∈ command.line, byte = 0x0a ∨ byte = 0x0d ∨ byte = 0x09) := by
    rw [not_or]
    constructor
    · intro empty
      rw [empty] at fields
      have first : command.words.head nonempty = [] := by
        simp [← fields]
      revert first
      cases command <;> simp +decide [words]
    · rintro ⟨byte, mem, control⟩
      have least := le_of_mem_line printable_words mem
      rcases control with rfl | rfl | rfl <;> exact absurd least (by decide)
  rw [parseDaemonCommand, require_pos whole, ok_bind, fields]

/-- A command says itself on the socket exactly when it does not enqueue an empty payload: its last
word would then be empty. -/
theorem parseDaemonCommand_line_iff (command : DaemonCommand) (stated : command.Stated) :
    parseDaemonCommand command.line = .ok command ↔ ∀ kind, command ≠ .enqueue kind [] := by
  have job (id : JobId) : hex id.bytes.toList ≠ [] := by simp [← length_pos_iff, length_hex]
  have number (n : ℕ) : decimal n ≠ [] := by simp [decimal, Nat.toDigits_ne_nil]
  rw [parseDaemonCommand_line, require_bind_eq_ok, parseFields_words stated]
  cases command with
  | enqueue kind payload =>
    have kind : hex kind ≠ [] := mt hex_eq_nil.mp stated
    simp +decide [words, kind, hex_eq_nil]
  | fail id reason =>
    have reason : hex reason ≠ [] := mt hex_eq_nil.mp stated
    simp +decide [words, job, reason]
  | _ => simp +decide [words, job, number]

theorem enqueue_letter_parses :
    parseDaemonCommand (DaemonCommand.enqueue (ascii "gc") [0x61]).line =
      .ok (.enqueue (ascii "gc") [0x61]) := by
  have stated : (DaemonCommand.enqueue (ascii "gc") [0x61]).Stated := by simp +decide [Stated]
  exact (parseDaemonCommand_line_iff _ stated).mpr (by simp)

theorem emptyPayload_refused : ¬∀ command : DaemonCommand, command.Stated →
    parseDaemonCommand command.line = .ok command := by
  intro all
  have parsed := all (.enqueue (ascii "gc") []) (by simp +decide [Stated])
  revert parsed
  decide +kernel
end Lines
end ReflinkForest
