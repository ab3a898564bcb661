import SicXE.Assembly.Mnemonic

/-! # The registry of mnemonics

Every mnemonic the assembler knows. Each memory instruction is entered twice, the second time
in its extended form, whose spelling starts with a plus sign. A mnemonic is found by its exact
spelling, and the registry is shown in the order of spellings.
-/
namespace SicXE.Registry
open Text

/-- Directives, which control the assembler. -/
def directives : List Mnemonic := [
  ⟨.directive .nobase,.directive,"directive","Unset base register."⟩,
  ⟨.directive .ltorg,.directive,"directive","Flush literals."⟩,
  ⟨.directive .start,.directiveOperand addressLimit,"directive","Set code start address."⟩,
  ⟨.directive .finish,.directiveOptional addressLimit,"directive","End code."⟩,
  ⟨.directive .base,.directiveOperand addressLimit,"directive","Set base register."⟩,
  ⟨.directive .equ,.directiveOperand wordLimit,"directive","Equate symbol to expression."⟩,
  ⟨.directive .org,.directiveOperand addressLimit,"directive","Set location counter."⟩]

/-- Directives that reserve or fill storage. -/
def storage : List Mnemonic := [
  ⟨.storage .resb,.storageReserve,"storage","Reserve bytes."⟩,
  ⟨.storage .resw,.storageReserve,"storage","Reserve words."⟩,
  ⟨.storage .byte,.storageByte,"storage","Initialize bytes."⟩,
  ⟨.storage .word,.storageWord,"storage","Initialize words."⟩]

/-- Instructions that take no operand. -/
def plainInstructions : List Mnemonic := [
  ⟨.instruction .fix,.format1,"A<-int(F)","Convert to fixed point number."⟩,
  ⟨.instruction .float,.format1,"F<-float(A)","Convert to floating point number."⟩,
  ⟨.instruction .norm,.format1,"F<-norm(F)","Normalize."⟩,
  ⟨.instruction .sio,.format1,"Start S, A","Start program S of I/O channel A."⟩,
  ⟨.instruction .hio,.format1,"Halt A","Halt I/O channel (A)."⟩,
  ⟨.instruction .tio,.format1,"Test A","Test I/O channel (A)."⟩,
  ⟨.instruction .rsub,.format3,"PC<-(L)","Return from subroutine."⟩]

/-- Instructions on registers and small numbers. -/
def registerInstructions : List Mnemonic := [
  ⟨.instruction .svc,.format2Number,"Interrupt n","Generate SVC interrupt n."⟩,
  ⟨.instruction .shiftl,.format2RegisterNumber,"(r1)<-(r1)<<n","Shift left n bits."⟩,
  ⟨.instruction .shiftr,.format2RegisterNumber,"(r1)<-(r1)>>n","Shift right n bits."⟩,
  ⟨.instruction .addr,.format2RegisterPair,"r2<-(r2)+(r1)","Add registers."⟩,
  ⟨.instruction .subr,.format2RegisterPair,"r2<-(r2)-(r1)","Subtract registers."⟩,
  ⟨.instruction .mulr,.format2RegisterPair,"r2<-(r2)*(r1)","Multiply registers."⟩,
  ⟨.instruction .divr,.format2RegisterPair,"r2<-(r2)/(r1)","Divide registers."⟩,
  ⟨.instruction .compr,.format2RegisterPair,"(r1):(r2)","Compare registers."⟩,
  ⟨.instruction .rmo,.format2RegisterPair,"r2<-(r1)","Move register."⟩,
  ⟨.instruction .clear,.format2Register,"r<-0","Clear register."⟩,
  ⟨.instruction .tixr,.format2Register,"X<-(X)+1;(X):(r)","Increment and compare index register."⟩]

/-- Instructions that refer to memory, each with what it does and a description. -/
def memoryInstructions : List (Opcode × String × String) := [
  (.lda,"A<-(m..m+2)","Load register A from address m"),
  (.ldch,"A.1<-(m)","Load byte to register A from address m"),
  (.ldb,"B<-(m..m+2)","Load register B from address m"),
  (.ldf,"F<-(m..m+5)","Load register F from address m"),
  (.ldl,"L<-(m..m+2)","Load register L from address m"),
  (.lds,"S<-(m..m+2)","Load register S from address m"),
  (.ldt,"T<-(m..m+2)","Load register T from address m"),
  (.ldx,"X<-(m..m+2)","Load register X from address m"),
  (.lps,"PS<-(m..m+2)","Load processor status from address m"),
  (.sta,"m..m+2<-(A)","Store register A to address m"),
  (.stch,"m<-(A.1)","Store byte from register A to address m"),
  (.stb,"m..m+2<-(B)","Store register B to address m"),
  (.stf,"m..m+5<-(F)","Store register F to address m"),
  (.stl,"m..m+2<-(L)","Store register L to address m"),
  (.sts,"m..m+2<-(S)","Store register S to address m"),
  (.stt,"m..m+2<-(T)","Store register T to address m"),
  (.stx,"m..m+2<-(X)","Store register X to address m"),
  (.sti,"timer<-(m..m+2)","Set interval timer"),
  (.stsw,"m..m+2<-(SW)","Store processor status word to address m"),
  (.add,"A<-(A)+(m..m+2)","Add to accumulator"),
  (.sub,"A<-(A)-(m..m+2)","Subtract from accumulator"),
  (.mul,"A<-(A)*(m..m+2)","Multiply with accumulator"),
  (.div,"A<-(A)/(m..m+2)","Divide accumulator"),
  (.comp,"(A):(m..m+2)","Compare accumulator"),
  (.and,"A<-(A)&(m..m+2)","Bitwise and accumulator"),
  (.or,"A<-(A)|(m..m+2)","Bitwise or accumulator"),
  (.tix,"X<-(X)+1;(X):(m..m+2)","Increment and compare index register"),
  (.addf,"F<-(F)+(m..m+5)","Floating point addition"),
  (.subf,"F<-(F)-(m..m+5)","Floating point subtraction"),
  (.mulf,"F<-(F)*(m..m+5)","Floating point multiplication"),
  (.divf,"F<-(F)/(m..m+5)","Floating point division"),
  (.compf,"(F):(m..m+5)","Floating point comparison"),
  (.j,"PC<-m","Unconditional jump"),
  (.jeq,"PC<-m if CC is =","Jump if equal"),
  (.jgt,"PC<-m if CC is >","Jump if greater than"),
  (.jlt,"PC<-m if CC is <","Jump if lower than"),
  (.jsub,"L<-(PC);PC<-m","Jump to subroutine"),
  (.rd,"A.1<-readdev(m)","Read from device"),
  (.wd,"writedev(m),A.1","Write to device"),
  (.td,"testdev(m)","Test device"),
  (.ssk,"m<-(A)","Protection key for address")]

/-- The two forms of a memory instruction. -/
def memoryForms : Opcode × String × String → List Mnemonic
  | (op,pattern,description) =>
    [⟨.instruction op,.format3Memory,pattern,description⟩,
      ⟨.instruction op,.format4Memory,pattern,description⟩]

def all : List Mnemonic :=
  directives ++ storage ++ plainInstructions ++ registerInstructions ++
    memoryInstructions.flatMap memoryForms

def ofSpelling? (spelling : Text) : Option Mnemonic := all.find? (·.spelling == spelling)

/-- All mnemonics in the order of their spellings. -/
def sorted : List Mnemonic :=
  all.mergeSort fun m n => (compare m.spelling n.spelling).isLE

/-- One line of the reference table. -/
def row (m : Mnemonic) : Text :=
  padRight 8 m.spelling ++ ' ' :: padRight 24 m.pattern.toList ++ ' ' :: m.description.toList

/-- The registry as a reference table. -/
def table : Text := sorted.flatMap fun m => row m ++ ['\n']

theorem mem_all_of_ofSpelling? {spelling : Text} {m : Mnemonic}
    (h : ofSpelling? spelling = some m) : m ∈ all ∧ m.spelling = spelling := by
  refine ⟨List.mem_of_find?_eq_some h,?_⟩
  simpa using List.find?_some h

end SicXE.Registry
