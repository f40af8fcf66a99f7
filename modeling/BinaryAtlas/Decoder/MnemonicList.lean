import BinaryAtlas.Word

/-!
Instructions of four bytes that are known by their text: the instruction set, the bytes in
hexadecimal, the address they stand at, the mnemonic and the operands.
-/

set_option autoImplicit false

namespace BinaryAtlas

structure ListedInstruction where
  architecture : String
  bytes : String
  address : Word
  mnemonic : String
  operands : String

namespace Mnemonic

def arm64List : List ListedInstruction :=
  [⟨"aarch64", "c0035fd6", 0x1000, "ret", ""⟩,
   ⟨"aarch64", "04000094", 0x1000, "bl", "#0x1010"⟩,
   ⟨"aarch64", "00001f14", 0x1000, "b", "#0x7c1000"⟩,
   ⟨"aarch64", "e0031faa", 0x1000, "mov", "x0, xzr"⟩,
   ⟨"aarch64", "60000034", 0x1000, "cbz", "w0, #0x100c"⟩,
   ⟨"aarch64", "61000054", 0x1000, "b.ne", "#0x100c"⟩,
   ⟨"aarch64", "fd7bbfa9", 0x1000, "stp", "x29, x30, [sp, #-0x10]!"⟩,
   ⟨"aarch64", "00001fd6", 0x1000, "br", "x0"⟩,
   ⟨"aarch64", "00003fd6", 0x1000, "blr", "x0"⟩,
   ⟨"aarch64", "e0031f2a", 0x1000, "mov", "w0, wzr"⟩,
   ⟨"aarch64", "1f2003d5", 0x1000, "nop", ""⟩,
   ⟨"aarch64", "200080d2", 0x1000, "mov", "x0, #1"⟩,
   ⟨"aarch64", "400000b4", 0x1000, "cbz", "x0, #0x1008"⟩,
   ⟨"aarch64", "40000036", 0x1000, "tbz", "w0, #0, #0x1008"⟩,
   ⟨"aarch64", "e00340f9", 0x1000, "ldr", "x0, [sp]"⟩]

def armList : List ListedInstruction :=
  [⟨"armv7", "1eff2fe1", 0x1000, "bx", "lr"⟩,
   ⟨"armv7", "020000eb", 0x1000, "bl", "#0x1010"⟩,
   ⟨"armv7", "feffffea", 0x1000, "b", "#0x1000"⟩,
   ⟨"armv7", "0000a0e3", 0x1000, "mov", "r0, #0"⟩,
   ⟨"armv7", "0300000a", 0x1000, "beq", "#0x1014"⟩,
   ⟨"armv7", "0080bde8", 0x1000, "ldm", "sp!, \x7bpc\x7d"⟩,
   ⟨"armv7", "10ff2fe1", 0x1000, "bx", "r0"⟩,
   ⟨"armv7", "33ff2fe1", 0x1000, "blx", "r3"⟩,
   ⟨"armv7", "00482de9", 0x1000, "push", "\x7bfp, lr\x7d"⟩,
   ⟨"armv7", "0010a0e1", 0x1000, "mov", "r1, r0"⟩,
   ⟨"armv7", "fefffffa", 0x1000, "blx", "#0x1000"⟩,
   ⟨"armv7", "04f09de4", 0x1000, "pop", "\x7bpc\x7d"⟩,
   ⟨"armv7", "7b009fe5", 0x1000, "ldr", "r0, [pc, #0x7b]"⟩,
   ⟨"armv7eb", "e12fff1e", 0x1000, "bx", "lr"⟩,
   ⟨"armv7eb", "eb000002", 0x1000, "bl", "#0x1010"⟩,
   ⟨"armv7eb", "e3a00000", 0x1000, "mov", "r0, #0"⟩]

def mipsList : List ListedInstruction :=
  [⟨"mips32", "03e00008", 0x1000, "jr", "$ra"⟩,
   ⟨"mips32", "0c000100", 0x1000, "jal", "0x400"⟩,
   ⟨"mips32", "08000100", 0x1000, "j", "0x400"⟩,
   ⟨"mips32", "10400003", 0x1000, "beqz", "$v0, 0x1010"⟩,
   ⟨"mips32", "00000000", 0x1000, "nop", ""⟩,
   ⟨"mips32", "24020001", 0x1000, "addiu", "$v0, $zero, 1"⟩,
   ⟨"mips32", "8fbf0014", 0x1000, "lw", "$ra, 0x14($sp)"⟩,
   ⟨"mips32", "0000000d", 0x1000, "break", ""⟩,
   ⟨"mips32", "03200008", 0x1000, "jr", "$t9"⟩,
   ⟨"mips32", "0320f809", 0x1000, "jalr", "$t9"⟩,
   ⟨"mips32", "1000ffff", 0x1000, "b", "0x1000"⟩,
   ⟨"mips32", "04110002", 0x1000, "bal", "0x100c"⟩,
   ⟨"mips32", "14400001", 0x1000, "bnez", "$v0, 0x1008"⟩,
   ⟨"mipsel32", "0800e003", 0x1000, "jr", "$ra"⟩,
   ⟨"mipsel32", "0001000c", 0x1000, "jal", "0x400"⟩,
   ⟨"mipsel32", "00000000", 0x1000, "nop", ""⟩,
   ⟨"mips64", "03e00008", 0x1000, "jr", "$ra"⟩,
   ⟨"mips64", "67bdfff0", 0x1000, "daddiu", "$sp, $sp, -0x10"⟩,
   ⟨"mips64", "dfbf0008", 0x1000, "ld", "$ra, 8($sp)"⟩,
   ⟨"mips64", "0c000100", 0x1000, "jal", "0x400"⟩,
   ⟨"mipsel64", "0800e003", 0x1000, "jr", "$ra"⟩,
   ⟨"mipsel64", "00000000", 0x1000, "nop", ""⟩]

def powerPCList : List ListedInstruction :=
  [⟨"ppc", "4e800020", 0x1000, "blr", ""⟩,
   ⟨"ppc", "48000101", 0x1000, "bl", "0x1100"⟩,
   ⟨"ppc", "48000100", 0x1000, "b", "0x1100"⟩,
   ⟨"ppc", "41820010", 0x1000, "beq", "0x1010"⟩,
   ⟨"ppc", "4e800420", 0x1000, "bctr", ""⟩,
   ⟨"ppc", "4e800421", 0x1000, "bctrl", ""⟩,
   ⟨"ppc", "38600001", 0x1000, "li", "r3, 1"⟩,
   ⟨"ppc", "60000000", 0x1000, "nop", ""⟩,
   ⟨"ppc", "7c0802a6", 0x1000, "mflr", "r0"⟩,
   ⟨"ppc", "4082fff8", 0x1000, "bne", "0xff8"⟩,
   ⟨"ppc", "48000102", 0x1000, "ba", "0x100"⟩,
   ⟨"ppc_le", "2000804e", 0x1000, "blr", ""⟩,
   ⟨"ppc_le", "01010048", 0x1000, "bl", "0x1100"⟩,
   ⟨"ppc64", "4e800020", 0x1000, "blr", ""⟩,
   ⟨"ppc64", "e8610010", 0x1000, "ld", "r3, 0x10(r1)"⟩,
   ⟨"ppc64", "48000101", 0x1000, "bl", "0x1100"⟩,
   ⟨"ppc64_le", "2000804e", 0x1000, "blr", ""⟩,
   ⟨"ppc64_le", "100061e8", 0x1000, "ld", "r3, 0x10(r1)"⟩]

def riscVList : List ListedInstruction :=
  [⟨"rv32gc", "67800000", 0x1000, "ret", ""⟩,
   ⟨"rv32gc", "ef008000", 0x1000, "jal", "8"⟩,
   ⟨"rv32gc", "6f008000", 0x1000, "j", "8"⟩,
   ⟨"rv32gc", "63080000", 0x1000, "beqz", "zero, 0x10"⟩,
   ⟨"rv32gc", "13050500", 0x1000, "mv", "a0, a0"⟩,
   ⟨"rv32gc", "93000000", 0x1000, "mv", "ra, zero"⟩,
   ⟨"rv32gc", "03a50500", 0x1000, "lw", "a0, 0(a1)"⟩,
   ⟨"rv32gc", "e7800000", 0x1000, "jalr", "ra"⟩,
   ⟨"rv32gc", "67000500", 0x1000, "jr", "a0"⟩,
   ⟨"rv64gc", "67800000", 0x1000, "ret", ""⟩,
   ⟨"rv64gc", "ef008000", 0x1000, "jal", "8"⟩,
   ⟨"rv64gc", "03b50500", 0x1000, "ld", "a0, 0(a1)"⟩,
   ⟨"rv64gc", "6f008000", 0x1000, "j", "8"⟩,
   ⟨"rv64gc", "63940500", 0x1000, "bnez", "a1, 8"⟩]

def listed : List ListedInstruction :=
  arm64List ++ armList ++ mipsList ++ powerPCList ++ riscVList

end Mnemonic

end BinaryAtlas
