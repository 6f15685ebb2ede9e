/-!
# Operation codes

An operation code is one byte. The first 202 of them have a meaning and a
mnemonic; the others are kept apart from each other but do nothing.
-/

namespace StackMaps

/-- An operation code, in numerical order. -/
inductive Opcode
  | nop | aconstNull | iconstM1 | iconst0 | iconst1 | iconst2 | iconst3 | iconst4 | iconst5
  | lconst0 | lconst1 | fconst0 | fconst1 | fconst2 | dconst0 | dconst1 | bipush | sipush
  | ldc | ldcW | ldc2W | iload | lload | fload | dload | aload | iload0 | iload1 | iload2
  | iload3 | lload0 | lload1 | lload2 | lload3 | fload0 | fload1 | fload2 | fload3 | dload0
  | dload1 | dload2 | dload3 | aload0 | aload1 | aload2 | aload3 | iaload | laload | faload
  | daload | aaload | baload | caload | saload | istore | lstore | fstore | dstore | astore
  | istore0 | istore1 | istore2 | istore3 | lstore0 | lstore1 | lstore2 | lstore3 | fstore0
  | fstore1 | fstore2 | fstore3 | dstore0 | dstore1 | dstore2 | dstore3 | astore0 | astore1
  | astore2 | astore3 | iastore | lastore | fastore | dastore | aastore | bastore | castore
  | sastore | pop | pop2 | dup | dupX1 | dupX2 | dup2 | dup2X1 | dup2X2 | swap | iadd
  | ladd | fadd | dadd | isub | lsub | fsub | dsub | imul | lmul | fmul | dmul | idiv
  | ldiv | fdiv | ddiv | irem | lrem | frem | drem | ineg | lneg | fneg | dneg | ishl
  | lshl | ishr | lshr | iushr | lushr | iand | land | ior | lor | ixor | lxor | iinc | i2l
  | i2f | i2d | l2i | l2f | l2d | f2i | f2l | f2d | d2i | d2l | d2f | i2b | i2c | i2s
  | lcmp | fcmpl | fcmpg | dcmpl | dcmpg | ifeq | ifne | iflt | ifge | ifgt | ifle
  | ifIcmpeq | ifIcmpne | ifIcmplt | ifIcmpge | ifIcmpgt | ifIcmple | ifAcmpeq | ifAcmpne
  | goto | jsr | ret | tableswitch | lookupswitch | ireturn | lreturn | freturn | dreturn
  | areturn | returnVoid | getstatic | putstatic | getfield | putfield | invokevirtual
  | invokespecial | invokestatic | invokeinterface | invokedynamic | new | newarray
  | anewarray | arraylength | athrow | checkcast | instanceof | monitorenter | monitorexit
  | wide | multianewarray | ifnull | ifnonnull | gotoW | jsrW
  | unassigned (index : Fin 54)
  deriving DecidableEq

namespace Opcode

/-- The operation codes with a meaning. The position of each is its number. -/
def assigned : Array Opcode := #[
  .nop, .aconstNull, .iconstM1, .iconst0, .iconst1, .iconst2, .iconst3, .iconst4, .iconst5,
  .lconst0, .lconst1, .fconst0, .fconst1, .fconst2, .dconst0, .dconst1, .bipush, .sipush,
  .ldc, .ldcW, .ldc2W, .iload, .lload, .fload, .dload, .aload, .iload0, .iload1, .iload2,
  .iload3, .lload0, .lload1, .lload2, .lload3, .fload0, .fload1, .fload2, .fload3, .dload0,
  .dload1, .dload2, .dload3, .aload0, .aload1, .aload2, .aload3, .iaload, .laload, .faload,
  .daload, .aaload, .baload, .caload, .saload, .istore, .lstore, .fstore, .dstore, .astore,
  .istore0, .istore1, .istore2, .istore3, .lstore0, .lstore1, .lstore2, .lstore3, .fstore0,
  .fstore1, .fstore2, .fstore3, .dstore0, .dstore1, .dstore2, .dstore3, .astore0, .astore1,
  .astore2, .astore3, .iastore, .lastore, .fastore, .dastore, .aastore, .bastore, .castore,
  .sastore, .pop, .pop2, .dup, .dupX1, .dupX2, .dup2, .dup2X1, .dup2X2, .swap, .iadd, .ladd,
  .fadd, .dadd, .isub, .lsub, .fsub, .dsub, .imul, .lmul, .fmul, .dmul, .idiv, .ldiv, .fdiv,
  .ddiv, .irem, .lrem, .frem, .drem, .ineg, .lneg, .fneg, .dneg, .ishl, .lshl, .ishr, .lshr,
  .iushr, .lushr, .iand, .land, .ior, .lor, .ixor, .lxor, .iinc, .i2l, .i2f, .i2d, .l2i,
  .l2f, .l2d, .f2i, .f2l, .f2d, .d2i, .d2l, .d2f, .i2b, .i2c, .i2s, .lcmp, .fcmpl, .fcmpg,
  .dcmpl, .dcmpg, .ifeq, .ifne, .iflt, .ifge, .ifgt, .ifle, .ifIcmpeq, .ifIcmpne, .ifIcmplt,
  .ifIcmpge, .ifIcmpgt, .ifIcmple, .ifAcmpeq, .ifAcmpne, .goto, .jsr, .ret, .tableswitch,
  .lookupswitch, .ireturn, .lreturn, .freturn, .dreturn, .areturn, .returnVoid, .getstatic,
  .putstatic, .getfield, .putfield, .invokevirtual, .invokespecial, .invokestatic,
  .invokeinterface, .invokedynamic, .new, .newarray, .anewarray, .arraylength, .athrow,
  .checkcast, .instanceof, .monitorenter, .monitorexit, .wide, .multianewarray, .ifnull,
  .ifnonnull, .gotoW, .jsrW]

/-- The number of an operation code. -/
def code : Opcode → Nat
  | .unassigned index => 202 + index.val
  | opcode => opcode.ctorIdx

/-- The operation code with a number. -/
def ofByte (byte : UInt8) : Opcode :=
  if assigns : byte.toNat < 202 then
    assigned.getD byte.toNat .nop
  else
    .unassigned ⟨byte.toNat - 202, by have := byte.toNat_lt; omega⟩

/-- The mnemonics in numerical order. -/
def mnemonics : Array String := #[
  "nop", "aconst_null", "iconst_m1", "iconst_0", "iconst_1", "iconst_2", "iconst_3",
  "iconst_4", "iconst_5", "lconst_0", "lconst_1", "fconst_0", "fconst_1", "fconst_2",
  "dconst_0", "dconst_1", "bipush", "sipush", "ldc", "ldc_w", "ldc2_w", "iload", "lload",
  "fload", "dload", "aload", "iload_0", "iload_1", "iload_2", "iload_3", "lload_0",
  "lload_1", "lload_2", "lload_3", "fload_0", "fload_1", "fload_2", "fload_3", "dload_0",
  "dload_1", "dload_2", "dload_3", "aload_0", "aload_1", "aload_2", "aload_3", "iaload",
  "laload", "faload", "daload", "aaload", "baload", "caload", "saload", "istore", "lstore",
  "fstore", "dstore", "astore", "istore_0", "istore_1", "istore_2", "istore_3", "lstore_0",
  "lstore_1", "lstore_2", "lstore_3", "fstore_0", "fstore_1", "fstore_2", "fstore_3",
  "dstore_0", "dstore_1", "dstore_2", "dstore_3", "astore_0", "astore_1", "astore_2",
  "astore_3", "iastore", "lastore", "fastore", "dastore", "aastore", "bastore", "castore",
  "sastore", "pop", "pop2", "dup", "dup_x1", "dup_x2", "dup2", "dup2_x1", "dup2_x2", "swap",
  "iadd", "ladd", "fadd", "dadd", "isub", "lsub", "fsub", "dsub", "imul", "lmul", "fmul",
  "dmul", "idiv", "ldiv", "fdiv", "ddiv", "irem", "lrem", "frem", "drem", "ineg", "lneg",
  "fneg", "dneg", "ishl", "lshl", "ishr", "lshr", "iushr", "lushr", "iand", "land", "ior",
  "lor", "ixor", "lxor", "iinc", "i2l", "i2f", "i2d", "l2i", "l2f", "l2d", "f2i", "f2l",
  "f2d", "d2i", "d2l", "d2f", "i2b", "i2c", "i2s", "lcmp", "fcmpl", "fcmpg", "dcmpl",
  "dcmpg", "ifeq", "ifne", "iflt", "ifge", "ifgt", "ifle", "if_icmpeq", "if_icmpne",
  "if_icmplt", "if_icmpge", "if_icmpgt", "if_icmple", "if_acmpeq", "if_acmpne", "goto",
  "jsr", "ret", "tableswitch", "lookupswitch", "ireturn", "lreturn", "freturn", "dreturn",
  "areturn", "return", "getstatic", "putstatic", "getfield", "putfield", "invokevirtual",
  "invokespecial", "invokestatic", "invokeinterface", "invokedynamic", "new", "newarray",
  "anewarray", "arraylength", "athrow", "checkcast", "instanceof", "monitorenter",
  "monitorexit", "wide", "multianewarray", "ifnull", "ifnonnull", "goto_w", "jsr_w"]

/-- The mnemonic of an operation code. -/
def mnemonic (opcode : Opcode) : String :=
  mnemonics.getD opcode.code "<invalid>"

/-- The operation code with a mnemonic. -/
def ofMnemonic? (text : String) : Option Opcode :=
  (mnemonics.idxOf? text).bind fun (index : Nat) => assigned[index]?

/-- Does the operation end a body or a path through it? -/
def isTerminal : Opcode → Bool
  | .ireturn | .lreturn | .freturn | .dreturn | .areturn | .returnVoid | .athrow | .ret => true
  | _ => false

/-- Is this a branch that may also fall through? -/
def isConditional (opcode : Opcode) : Bool :=
  (Opcode.ifeq.code ≤ opcode.code && opcode.code ≤ Opcode.ifAcmpne.code) ||
    opcode == .ifnull || opcode == .ifnonnull

end Opcode

end StackMaps
