import BinaryAtlas.Architecture

/-!
Instructions of the Intel sets that are known: the instruction set, the bytes in hexadecimal and
their number, the address they stand at, and what they decode to.
-/

set_option autoImplicit false

namespace BinaryAtlas

namespace Intel

structure Listed where
  architecture : String
  bytes : String
  length : Nat
  address : Word
  tokens : List Token
  branches : List Branch

def op (text : String) : Token := .plain .instruction text

def gap (text : String) : Token := .plain .text text

def reg (text : String) : Token := .plain .register text

def key (text : String) : Token := .plain .keyword text

def num (text : String) (value : Word) : Token := ⟨.integer, text, value⟩

def addr (text : String) (value : Word) : Token := ⟨.possibleAddress, text, value⟩

def comma : Token := .plain .operandSeparator ","

def opened : Token := .plain .beginMemoryOperand "["

def closed : Token := .plain .endMemoryOperand "]"

def wide : List Listed :=
  [⟨"x86_64", "90", 1, 0x1000,
     [op "nop"], []⟩,
   ⟨"x86_64", "c3", 1, 0x1000,
     [op "ret"], [⟨.return, none⟩]⟩,
   ⟨"x86_64", "cc", 1, 0x1000,
     [op "int3"], [⟨.exception, none⟩]⟩,
   ⟨"x86_64", "f4", 1, 0x1000,
     [op "hlt"], []⟩,
   ⟨"x86_64", "55", 1, 0x1000,
     [op "push", gap " ", reg "rbp"], []⟩,
   ⟨"x86_64", "5d", 1, 0x1000,
     [op "pop", gap " ", reg "rbp"], []⟩,
   ⟨"x86_64", "50", 1, 0x1000,
     [op "push", gap " ", reg "rax"], []⟩,
   ⟨"x86_64", "58", 1, 0x1000,
     [op "pop", gap " ", reg "rax"], []⟩,
   ⟨"x86_64", "c9", 1, 0x1000,
     [op "leave"], []⟩,
   ⟨"x86_64", "f3c3", 2, 0x1000,
     [op "rep", gap " ", op "ret"], [⟨.return, none⟩]⟩,
   ⟨"x86_64", "4889e5", 3, 0x1000,
     [op "mov", gap " ", reg "rbp", comma, gap " ", reg "rsp"], []⟩,
   ⟨"x86_64", "85c0", 2, 0x1000,
     [op "test", gap " ", reg "eax", comma, gap " ", reg "eax"], []⟩,
   ⟨"x86_64", "31c0", 2, 0x1000,
     [op "xor", gap " ", reg "eax", comma, gap " ", reg "eax"], []⟩,
   ⟨"x86_64", "b800200000", 5, 0x1000,
     [op "mov", gap " ", reg "eax", comma, gap " ", num "0x2000" 0x2000], []⟩,
   ⟨"x86_64", "b82a000000", 5, 0x1000,
     [op "mov", gap " ", reg "eax", comma, gap " ", num "0x2A" 0x2a], []⟩,
   ⟨"x86_64", "48b8efcdab8967452301", 10, 0x1000,
     [op "mov", gap " ", reg "rax", comma, gap " ", num "0x123456789ABCDEF" 0x123456789abcdef],
      []⟩,
   ⟨"x86_64", "e807000000", 5, 0x1000,
     [op "call", gap " ", addr "0x100C" 0x100c], [⟨.call, some 0x100c⟩]⟩,
   ⟨"x86_64", "e8fbffffff", 5, 0x1000,
     [op "call", gap " ", addr "0x1000" 0x1000], [⟨.call, some 0x1000⟩]⟩,
   ⟨"x86_64", "eb05", 2, 0x1000,
     [op "jmp", gap " ", key "short", gap " ", addr "0x1007" 0x1007], [⟨.unconditional,
      some 0x1007⟩]⟩,
   ⟨"x86_64", "ebfe", 2, 0x1000,
     [op "jmp", gap " ", key "short", gap " ", addr "0x1000" 0x1000], [⟨.unconditional,
      some 0x1000⟩]⟩,
   ⟨"x86_64", "e900010000", 5, 0x1000,
     [op "jmp", gap " ", addr "0x1105" 0x1105], [⟨.unconditional, some 0x1105⟩]⟩,
   ⟨"x86_64", "7405", 2, 0x1000,
     [op "je", gap " ", key "short", gap " ", addr "0x1007" 0x1007], [⟨.conditional,
      some 0x1007⟩]⟩,
   ⟨"x86_64", "75fc", 2, 0x1000,
     [op "jne", gap " ", key "short", gap " ", addr "0xFFE" 0xffe], [⟨.conditional, some 0xffe⟩]⟩,
   ⟨"x86_64", "0f8400020000", 6, 0x1000,
     [op "je", gap " ", addr "0x1206" 0x1206], [⟨.conditional, some 0x1206⟩]⟩,
   ⟨"x86_64", "ffe0", 2, 0x1000,
     [op "jmp", gap " ", reg "rax"], [⟨.indirect, none⟩]⟩,
   ⟨"x86_64", "ffd0", 2, 0x1000,
     [op "call", gap " ", reg "rax"], [⟨.call, none⟩]⟩,
   ⟨"x86_64", "ff2500100000", 6, 0x1000,
     [op "jmp", gap " ", key "qword", gap " ", key "ptr", gap " ", opened, addr "0x2006" 0x2006,
      closed], [⟨.indirect, none⟩]⟩,
   ⟨"x86_64", "ff1510000000", 6, 0x1000,
     [op "call", gap " ", key "qword", gap " ", key "ptr", gap " ", opened, addr "0x1016" 0x1016,
      closed], [⟨.call, none⟩]⟩,
   ⟨"x86_64", "488d0510000000", 7, 0x1000,
     [op "lea", gap " ", reg "rax", comma, gap " ", opened, addr "0x1017" 0x1017, closed], []⟩,
   ⟨"x86_64", "8b0510000000", 6, 0x1000,
     [op "mov", gap " ", reg "eax", comma, gap " ", opened, addr "0x1016" 0x1016, closed], []⟩]

def wideMore : List Listed :=
  [⟨"x86_64", "488b4508", 4, 0x1000,
     [op "mov", gap " ", reg "rax", comma, gap " ", opened, reg "rbp", gap "+", num "8" 0x8,
      closed], []⟩,
   ⟨"x86_64", "894424fc", 4, 0x1000,
     [op "mov", gap " ", opened, reg "rsp", gap "-", num "4" 0xfffffffffffffffc, closed, comma,
      gap " ", reg "eax"], []⟩,
   ⟨"x86_64", "83c010", 3, 0x1000,
     [op "add", gap " ", reg "eax", comma, gap " ", num "0x10" 0x10], []⟩,
   ⟨"x86_64", "4883ec20", 4, 0x1000,
     [op "sub", gap " ", reg "rsp", comma, gap " ", num "0x20" 0x20], []⟩,
   ⟨"x86_64", "cd80", 2, 0x1000,
     [op "int", gap " ", num "0x80" 0x80], [⟨.exception, none⟩]⟩,
   ⟨"x86_64", "0f05", 2, 0x1000,
     [op "syscall"], [⟨.call, none⟩]⟩,
   ⟨"x86_64", "0f0b", 2, 0x1000,
     [op "ud2"], [⟨.exception, none⟩]⟩,
   ⟨"x86_64", "c20800", 3, 0x1000,
     [op "ret", gap " ", num "8" 0x8], [⟨.return, none⟩]⟩,
   ⟨"x86_64", "c8100001", 4, 0x1000,
     [op "enter", gap " ", num "0x10" 0x10, comma, gap " ", num "1" 0x1], []⟩,
   ⟨"x86_64", "e3fe", 2, 0x1000,
     [op "jrcxz", gap " ", addr "0x1000" 0x1000], [⟨.conditional, some 0x1000⟩]⟩,
   ⟨"x86_64", "c7f800000000", 6, 0x1000,
     [op "xbegin", gap " ", addr "0x1006" 0x1006], []⟩,
   ⟨"x86_64", "8b04b500100000", 7, 0x1000,
     [op "mov", gap " ", reg "eax", comma, gap " ", opened, reg "rsi", gap "*", num "4" 0x4,
      gap "+", num "0x1000" 0x1000, closed], []⟩,
   ⟨"x86_64", "f0480fb10b", 5, 0x1000,
     [op "lock", gap " ", op "cmpxchg", gap " ", opened, reg "rbx", closed, comma, gap " ",
      reg "rcx"], []⟩,
   ⟨"x86_64", "6a00", 2, 0x1000,
     [op "push", gap " ", num "0" 0], []⟩,
   ⟨"x86_64", "6aff", 2, 0x1000,
     [op "push", gap " ", num "0xFFFFFFFFFFFFFFFF" 0xffffffffffffffff], []⟩,
   ⟨"x86_64", "0fb6c0", 3, 0x1000,
     [op "movzx", gap " ", reg "eax", comma, gap " ", reg "al"], []⟩,
   ⟨"x86_64", "4801d8", 3, 0x1000,
     [op "add", gap " ", reg "rax", comma, gap " ", reg "rbx"], []⟩,
   ⟨"x86_64", "7405", 2, 0x1002,
     [op "je", gap " ", key "short", gap " ", addr "0x1009" 0x1009], [⟨.conditional,
      some 0x1009⟩]⟩,
   ⟨"x86_64", "e807000000", 5, 0x1004,
     [op "call", gap " ", addr "0x1010" 0x1010], [⟨.call, some 0x1010⟩]⟩,
   ⟨"x86_64", "c3", 1, 0x1009,
     [op "ret"], [⟨.return, none⟩]⟩,
   ⟨"x86_64", "b800200000", 5, 0x1010,
     [op "mov", gap " ", reg "eax", comma, gap " ", num "0x2000" 0x2000], []⟩,
   ⟨"x86_64", "c3", 1, 0x1015,
     [op "ret"], [⟨.return, none⟩]⟩]

def narrow : List Listed :=
  [⟨"x86", "90", 1, 0x100,
     [op "nop"], []⟩,
   ⟨"x86", "c3", 1, 0x100,
     [op "ret"], [⟨.return, none⟩]⟩,
   ⟨"x86", "e807000000", 5, 0x100,
     [op "call", gap " ", addr "0x10C" 0x10c], [⟨.call, some 0x10c⟩]⟩,
   ⟨"x86", "7402", 2, 0x100,
     [op "je", gap " ", key "short", gap " ", addr "0x104" 0x104], [⟨.conditional, some 0x104⟩]⟩,
   ⟨"x86", "eb05", 2, 0x100,
     [op "jmp", gap " ", key "short", gap " ", addr "0x107" 0x107], [⟨.unconditional,
      some 0x107⟩]⟩,
   ⟨"x86", "a100200000", 5, 0x100,
     [op "mov", gap " ", reg "eax", comma, gap " ", opened, num "0x2000" 0x2000, closed], []⟩,
   ⟨"x86", "ff2500100000", 6, 0x100,
     [op "jmp", gap " ", key "dword", gap " ", key "ptr", gap " ", opened, num "0x1000" 0x1000,
      closed], [⟨.indirect, none⟩]⟩,
   ⟨"x86", "ff1500100000", 6, 0x100,
     [op "call", gap " ", key "dword", gap " ", key "ptr", gap " ", opened, num "0x1000" 0x1000,
      closed], [⟨.call, none⟩]⟩,
   ⟨"x86", "8b4508", 3, 0x100,
     [op "mov", gap " ", reg "eax", comma, gap " ", opened, reg "ebp", gap "+", num "8" 0x8,
      closed], []⟩,
   ⟨"x86", "06", 1, 0x100,
     [op "push", gap " ", reg "es"], []⟩,
   ⟨"x86", "40", 1, 0x100,
     [op "inc", gap " ", reg "eax"], []⟩,
   ⟨"x86", "cd80", 2, 0x100,
     [op "int", gap " ", num "0x80" 0x80], [⟨.exception, none⟩]⟩,
   ⟨"x86", "e8fbffffff", 5, 0x100,
     [op "call", gap " ", addr "0x100" 0x100], [⟨.call, some 0x100⟩]⟩,
   ⟨"x86", "b801000000", 5, 0x100,
     [op "mov", gap " ", reg "eax", comma, gap " ", num "1" 0x1], []⟩,
   ⟨"x86", "66e80500", 4, 0x100,
     [op "data16", gap " ", op "call", gap " ", addr "0x109" 0x109], [⟨.call, some 0x109⟩]⟩,
   ⟨"x86", "83ec10", 3, 0x100,
     [op "sub", gap " ", reg "esp", comma, gap " ", num "0x10" 0x10], []⟩]

def listed : List Listed := wide ++ wideMore ++ narrow

end Intel

end BinaryAtlas
