namespace Michelson

/-- The instructions, in the order in which they are numbered. -/
inductive Opcode where
  | push | drop | dup | dig | dug | swap | lambda | exec | apply | dip | ifBool | ifNone | ifLeft
  | ifCons | loop | iter | failwith | comment | car | cdr | pair | unpair | get | update | some
  | none | left | right | pack | unpack | concat | slice | size | blake2b | keccak | sha256
  | sha512 | sha3 | emptySet | emptyMap | emptyBigMap | nil | cons | mem | compare | add | sub
  | subMutez | mul | ediv | neg | abs | isnat | int | or | and | xor | not | eq | neq | lt | gt
  | le | ge | unit | now | selfAddress | sender | source | amount | balance | address | contract
  | transferTokens
  deriving DecidableEq, Repr

namespace Opcode

def all : List Opcode := [
  .push, .drop, .dup, .dig, .dug, .swap, .lambda, .exec, .apply, .dip, .ifBool, .ifNone, .ifLeft,
  .ifCons, .loop, .iter, .failwith, .comment, .car, .cdr, .pair, .unpair, .get, .update, .some,
  .none, .left, .right, .pack, .unpack, .concat, .slice, .size, .blake2b, .keccak, .sha256,
  .sha512, .sha3, .emptySet, .emptyMap, .emptyBigMap, .nil, .cons, .mem, .compare, .add, .sub,
  .subMutez, .mul, .ediv, .neg, .abs, .isnat, .int, .or, .and, .xor, .not, .eq, .neq, .lt, .gt,
  .le, .ge, .unit, .now, .selfAddress, .sender, .source, .amount, .balance, .address, .contract,
  .transferTokens]

theorem mem_all (op : Opcode) : op ∈ all := by
  cases op <;> decide

def index (op : Opcode) : Nat :=
  op.ctorIdx

theorem all_getElem_index (op : Opcode) : all[op.index]? = .some op := by
  cases op <;> rfl

def mnemonic : Opcode → String
  | .push => "PUSH"
  | .drop => "DROP"
  | .dup => "DUP"
  | .dig => "DIG"
  | .dug => "DUG"
  | .swap => "SWAP"
  | .lambda => "LAMBDA"
  | .exec => "EXEC"
  | .apply => "APPLY"
  | .dip => "DIP"
  | .ifBool => "IF"
  | .ifNone => "IF_NONE"
  | .ifLeft => "IF_LEFT"
  | .ifCons => "IF_CONS"
  | .loop => "LOOP"
  | .iter => "ITER"
  | .failwith => "FAILWITH"
  | .comment => "COMMENT"
  | .car => "CAR"
  | .cdr => "CDR"
  | .pair => "PAIR"
  | .unpair => "UNPAIR"
  | .get => "GET"
  | .update => "UPDATE"
  | .some => "SOME"
  | .none => "NONE"
  | .left => "LEFT"
  | .right => "RIGHT"
  | .pack => "PACK"
  | .unpack => "UNPACK"
  | .concat => "CONCAT"
  | .slice => "SLICE"
  | .size => "SIZE"
  | .blake2b => "BLAKE2B"
  | .keccak => "KECCAK"
  | .sha256 => "SHA256"
  | .sha512 => "SHA512"
  | .sha3 => "SHA3"
  | .emptySet => "EMPTY_SET"
  | .emptyMap => "EMPTY_MAP"
  | .emptyBigMap => "EMPTY_BIG_MAP"
  | .nil => "NIL"
  | .cons => "CONS"
  | .mem => "MEM"
  | .compare => "COMPARE"
  | .add => "ADD"
  | .sub => "SUB"
  | .subMutez => "SUB_MUTEZ"
  | .mul => "MUL"
  | .ediv => "EDIV"
  | .neg => "NEG"
  | .abs => "ABS"
  | .isnat => "ISNAT"
  | .int => "INT"
  | .or => "OR"
  | .and => "AND"
  | .xor => "XOR"
  | .not => "NOT"
  | .eq => "EQ"
  | .neq => "NEQ"
  | .lt => "LT"
  | .gt => "GT"
  | .le => "LE"
  | .ge => "GE"
  | .unit => "UNIT"
  | .now => "NOW"
  | .selfAddress => "SELF_ADDRESS"
  | .sender => "SENDER"
  | .source => "SOURCE"
  | .amount => "AMOUNT"
  | .balance => "BALANCE"
  | .address => "ADDRESS"
  | .contract => "CONTRACT"
  | .transferTokens => "TRANSFER_TOKENS"

/-- Reads a mnemonic; the case of its letters counts. -/
def ofMnemonic? (text : String) : Option Opcode :=
  all.find? fun op => op.mnemonic = text

structure Unknown where
  text : String
  deriving DecidableEq, Repr

def Unknown.message (_ : Unknown) : String :=
  "Matching variant not found"

def ofMnemonic (text : String) : Except Unknown Opcode :=
  match ofMnemonic? text with
  | .some op => .ok op
  | .none => .error ⟨text⟩

/-- No two opcodes share a mnemonic. -/
theorem mnemonic_injective {a b : Opcode} (h : a.mnemonic = b.mnemonic) : a = b := by
  have key : ∀ c : Opcode, ∀ d ∈ all, c.mnemonic = d.mnemonic → c = d := by
    intro c
    cases c <;> decide
  exact key a b b.mem_all h

theorem ofMnemonic?_mnemonic (op : Opcode) : ofMnemonic? op.mnemonic = .some op := by
  cases h : ofMnemonic? op.mnemonic with
  | none => simpa [ofMnemonic?] using List.find?_eq_none.mp h op op.mem_all
  | some found =>
    have hf := List.find?_some h
    simp only [decide_eq_true_eq] at hf
    rw [mnemonic_injective hf]

end Opcode

end Michelson
