import Isambard.Lib.CStrings
import Mathlib.Data.List.Forall2

/-!
# Tools.Interfaces — the generators of client stubs and server dispatch

`tools/interfaces.c`, which is run once as `client` and once as `server` on an
interface file. It reads the file into lines, edits each routine's line in place to
find its parts (`split`), and puts the line back together. What the generators print
is modelled by the values that are printed.

* `readFile`: the lines, and where the interfaces start and end;
* `split`, `split_run`: a routine's line is as it was after its parser has run;
* `client`, `server`: the two generators;
* `generators_agree`: the stubs and the cases for one file.
-/

namespace Isambard.Tools

open Isambard.Lib.CStrings

/-! ## CRC -/

/-- `Polynomial`. -/
def polynomial : UInt32 := 0xEDB88320

/-- One pass of the inner loop of `crc32`. -/
def crcBit (crc : UInt32) : UInt32 := (crc >>> 1) ^^^ ((0 - (crc &&& 1)) &&& polynomial)

def crcByte (crc : UInt32) (b : UInt8) : UInt32 := crcBit^[8] (crc ^^^ b.toUInt32)

/-- `crc32( data, length, previousCrc32 )`. -/
def crc32 (data : Buffer) (previousCrc32 : UInt32) : UInt32 :=
  ~~~ (data.foldl crcByte (~~~ previousCrc32))

/-- A CRC goes on from that of what comes before. -/
theorem crc32_append (a b : Buffer) (previous : UInt32) :
    crc32 (a ++ b) previous = crc32 b (crc32 a previous) := by
  simp [crc32]

example : crc32 (bytes "123456789") 0 = 0xCBF43926 := by decide +kernel

/-! ## Reading the file -/

/-- How a program ends without an output: `exit` or `return` from `main`, or a write past
the end of one of its arrays. -/
inductive Failure where
  | exit (code : ℕ)
  | undefined
  | outOfFuel
deriving Repr, DecidableEq

/-- What `main` has read. -/
structure Source where
  buf : Buffer
  /-- `lines` -/
  lines : List ℕ
  /-- `interfaces` -/
  interfaces : List ℕ
  /-- `ends` -/
  ends : List ℕ
deriving Repr, DecidableEq

/-- Leading whitespace. -/
def isBlank (b : UInt8) : Bool := b = 32 || b = 9

/-- A line that is left out: blank, or a comment. -/
def isIgnored (buf : Buffer) (line : ℕ) : Bool :=
  byteAt buf line = 0 || byteAt buf line = 35 ||
    (byteAt buf line = 47 && byteAt buf (line + 1) = 47)

/-- The line that has just been stored, if it starts or ends an interface. -/
def noteLine (src : Source) (line : ℕ) : Except Failure Source :=
  let src' := { src with lines := src.lines ++ [line] }
  if (bytes "interface ").isPrefixOf (cstr src.buf line) then
    if src.interfaces.length ≥ 100 then .error .undefined
    else if src.interfaces.length + 1 > src.ends.length + 1 then .error (.exit 1)
    else .ok { src' with interfaces := src.interfaces ++ [src.lines.length] }
  else if cstr src.buf line = bytes "end" then
    if src.ends.length ≥ 100 then .error .undefined
    else if src.interfaces.length ≠ src.ends.length + 1 then .error (.exit 1)
    else .ok { src' with ends := src.ends ++ [src.lines.length] }
  else .ok src'

/-- The loop of `main` over the tokens from `pos` on. -/
def readLoop : ℕ → ℕ → Source → Except Failure Source
  | 0, _, _ => .error .outOfFuel
  | fuel + 1, pos, src =>
    -- the token is stored before it is looked at
    if src.lines.length ≥ 1000 then .error .undefined
    else
      match strtok src.buf pos 10 with
      | none => .ok src
      | some (start, buf, pos) =>
        let line := start + spanAt buf start isBlank
        if isIgnored buf line then readLoop fuel pos { src with buf := buf }
        else (noteLine { src with buf := buf } line).bind (readLoop fuel pos)

/-- `main`, up to the call of the generator, on the contents of the file. -/
def readFile (file : Buffer) : Except Failure Source :=
  let buf := file ++ [0]
  (readLoop (buf.length + 1) 0 ⟨buf, [], [], []⟩).bind fun src =>
    if src.ends.length ≠ src.interfaces.length then .error (.exit 1) else .ok src

theorem noteLine_buf {src src' : Source} {line : ℕ} (h : noteLine src line = .ok src') :
    src'.buf = src.buf := by
  unfold noteLine at h
  split_ifs at h <;> cases h <;> rfl

theorem noteLine_fuel (src : Source) (line : ℕ) : noteLine src line ≠ .error .outOfFuel := by
  unfold noteLine
  split_ifs <;> simp

/-- Every token takes the loop forward, so there is fuel for all of them. -/
theorem readLoop_fuel {fuel pos : ℕ} {src : Source} (hfuel : src.buf.length < fuel + pos)
    (hpos : pos ≤ src.buf.length) : readLoop fuel pos src ≠ .error .outOfFuel := by
  induction fuel generalizing pos src with
  | zero => omega
  | succ fuel ih =>
    rw [readLoop]
    split_ifs
    · simp
    · rcases ht : strtok src.buf pos 10 with _ | ⟨start, buf, pos'⟩
      · simp
      · have hlength := strtok_length ht
        rcases strtok_pos (by decide) ht with ⟨hlt, hle⟩
        simp only
        split_ifs
        · exact ih (by simp only; omega) (by simp only; omega)
        · rcases hn : noteLine { src with buf := buf } (start + spanAt buf start isBlank)
            with e | src'
          · intro he
            apply noteLine_fuel { src with buf := buf } (start + spanAt buf start isBlank)
            rw [hn]
            exact he
          · have hbuf := noteLine_buf hn
            exact ih (by rw [hbuf]; simp only; omega) (by rw [hbuf]; simp only; omega)

theorem readFile_fuel (file : Buffer) : readFile file ≠ .error .outOfFuel := by
  have hread : readLoop ((file ++ [0]).length + 1) 0 ⟨file ++ [0], [], [], []⟩ ≠
      .error .outOfFuel := readLoop_fuel (Nat.lt_succ_self _) (Nat.zero_le _)
  show (readLoop ((file ++ [0]).length + 1) 0 ⟨file ++ [0], [], [], []⟩).bind _ ≠ _
  rcases h : readLoop ((file ++ [0]).length + 1) 0 ⟨file ++ [0], [], [], []⟩ with e | src
  · rw [h] at hread ⊢
    intro he
    cases he
    exact hread rfl
  · rw [h]
    simp only [Except.bind]
    split_ifs <;> simp

/-! ## Parameters -/

/-- `parameters_count`. -/
def countLoop (buf : Buffer) : ℕ → Option ℕ → ℕ → ℕ
  | fuel + 1, some p, result => countLoop buf fuel (strchr buf (p + 1) 44) (result + 1)
  | _, _, result => result

/-- Each `,` is further on than the last, so there are fewer than there are bytes. -/
def parametersCount (buf : Buffer) (parameters : Option ℕ) : ℕ :=
  countLoop buf (buf.length + 1) parameters 0

/-- `[a-zA-Z0-9_]`. -/
def isName (b : UInt8) : Bool :=
  (97 ≤ b && b ≤ 122) || (65 ≤ b && b ≤ 90) || (48 ≤ b && b ≤ 57) || b = 95

/-- `[a-zA-Z0-9_&]`. -/
def isTypeSet (b : UInt8) : Bool := isName b || b = 38

/-- `isspace`. -/
def isSpace (b : UInt8) : Bool := b = 32 || (9 ≤ b && b ≤ 13)

/-- A conversion of `sscanf` to an array of `size` bytes, and the rest of the string;
`none` when it does not match. -/
def scanSet (cond : UInt8 → Bool) (size : ℕ) (s : Buffer) :
    Except Failure (Option (Buffer × Buffer)) :=
  let matched := s.takeWhile cond
  if matched = [] then .ok none
  else if matched.length ≥ size then .error .undefined
  else .ok (some (matched, s.dropWhile cond))

structure Parameter where
  name : Buffer
  typeSet : Buffer
deriving Repr, DecidableEq

/-- `sscanf( p, " %[a-zA-Z0-9_]: %[a-zA-Z0-9_&]", name, type_set )`, which matches both or
is the end of the program. -/
def scanParameter (buf : Buffer) (p : ℕ) : Except Failure Parameter := do
  match ← scanSet isName 32 ((cstr buf p).dropWhile isSpace) with
  | some (name, 58 :: rest) =>
    match ← scanSet isTypeSet 128 (rest.dropWhile isSpace) with
    | some (typeSet, _) => .ok ⟨name, typeSet⟩
    | none => .error (.exit 1)
  | _ => .error (.exit 1)

/-- `print_parameter_decl`. -/
def printParameterDecl (buf : Buffer) (p : ℕ) : Except Failure Parameter := scanParameter buf p

/-- `print_parameter_type`. -/
def printParameterType (buf : Buffer) (p : ℕ) : Except Failure Buffer :=
  (scanParameter buf p).map Parameter.typeSet

/-- `print_parameter_name`. -/
def printParameterName (buf : Buffer) (p : ℕ) : Except Failure Buffer := do
  match ← scanSet isName 32 ((cstr buf p).dropWhile isSpace) with
  | some (name, _) => .ok name
  | none => .error (.exit 1)

/-- The loops `for (int i = 0; i < count; i++) { …; p = strchr( p, ',' ) + 1; }`. The
last pointer is not used. -/
def forParameters {α : Type} (buf : Buffer) (print : Buffer → ℕ → Except Failure α) :
    ℕ → Option ℕ → Except Failure (List α)
  | 0, _ => .ok []
  | _ + 1, none => .error .undefined
  | count + 1, some p => do
    let a ← print buf p
    let rest ← forParameters buf print count ((strchr buf p 44).map (· + 1))
    .ok (a :: rest)

section Parameters

variable {buf : Buffer} {α : Type}

theorem countLoop_eq {fuel p : ℕ} (hfuel : (cstr buf (p + 1)).length < fuel) (result : ℕ) :
    countLoop buf fuel (some p) result = result + 1 + (cstr buf (p + 1)).count 44 := by
  induction fuel generalizing p result with
  | zero => contradiction
  | succ fuel ih =>
    rw [countLoop]
    rcases hq : strchr buf (p + 1) 44 with _ | q
    · rw [List.count_eq_zero_of_not_mem (strchr_none hq)]
      cases fuel <;> rfl
    · rcases strchr_some hq with ⟨pre, he, hpre⟩
      rw [he, List.length_append, List.length_cons] at hfuel
      rw [ih (by omega), he, List.count_append, List.count_eq_zero_of_not_mem hpre,
        List.count_cons_self]
      omega

/-- There is one more parameter than there are commas after the first byte. -/
theorem parametersCount_some (buf : Buffer) (p : ℕ) :
    parametersCount buf (some p) = (cstr buf (p + 1)).count 44 + 1 := by
  have hlen : (cstr buf (p + 1)).length ≤ buf.length := by
    refine (List.takeWhile_prefix _).length_le.trans ?_
    rw [List.length_drop]
    omega
  unfold parametersCount
  rw [countLoop_eq (Nat.lt_succ_of_le hlen)]
  omega

theorem bind_ok {β : Type} {x : Except Failure α} {f : α → Except Failure β} {b : β}
    (h : x >>= f = .ok b) : ∃ a, x = .ok a ∧ f a = .ok b := by
  rcases x with e | a
  · cases h
  · exact ⟨a, rfl, h⟩

theorem forParameters_length {print : Buffer → ℕ → Except Failure α} {count : ℕ} {p : Option ℕ}
    {l : List α} (h : forParameters buf print count p = .ok l) : l.length = count := by
  induction count generalizing p l with
  | zero =>
    cases h
    rfl
  | succ count ih =>
    rcases p with _ | p
    · cases h
    · rcases bind_ok h with ⟨a, -, h⟩
      rcases bind_ok h with ⟨rest, hrest, h⟩
      cases h
      exact congrArg (· + 1) (ih hrest)

end Parameters

/-! ## Splitting a routine -/

/-- A generator reads and edits the buffer. -/
abbrev Generator := StateT Buffer (Except Failure)

/-- `routine_parser`: the interface name, the routine, its CRC, and its parameters. -/
abbrev RoutineParser (α : Type) :=
  Buffer → ℕ → ℕ → UInt32 → Option ℕ → Option ℕ → Except Failure α

/-- `if (p != 0) { *p = b; }`. -/
def put (p : Option ℕ) (b : UInt8) (buf : Buffer) : Buffer :=
  match p with
  | some p => buf.set p b
  | none => buf

def split {α : Type} (interfaceName routine : ℕ) (fn : RoutineParser α) (prefixCrc : UInt32) :
    Generator α := do
  let crc := crc32 (cstr (← get) routine) prefixCrc
  -- last section first
  let outparams := strstr (← get) routine (bytes " OUT ")
  modify (put outparams 0)
  let inparams := strstr (← get) routine (bytes " IN ")
  modify (put inparams 0)
  let firstSpace := strstr (← get) routine (bytes " ")
  modify (put firstSpace 0)
  let result ← fn (← get) interfaceName routine crc (inparams.map (· + 4)) (outparams.map (· + 5))
  modify (put firstSpace 32)
  modify (put outparams 32)
  modify (put inparams 32)
  return result

/-- The line with NULs in place of the spaces before its parts. -/
structure Cut where
  outparams : Option ℕ
  inparams : Option ℕ
  firstSpace : Option ℕ
  buf : Buffer

def cut (buf : Buffer) (routine : ℕ) : Cut :=
  let outparams := strstr buf routine (bytes " OUT ")
  let buf := put outparams 0 buf
  let inparams := strstr buf routine (bytes " IN ")
  let buf := put inparams 0 buf
  let firstSpace := strstr buf routine (bytes " ")
  ⟨outparams, inparams, firstSpace, put firstSpace 0 buf⟩

def Cut.inp (c : Cut) : Option ℕ := c.inparams.map (· + 4)

def Cut.out (c : Cut) : Option ℕ := c.outparams.map (· + 5)

section Split

variable {buf : Buffer} {α : Type}

theorem put_restore {p : Option ℕ} (h : ∀ q, p = some q → buf[q]? = some 32) :
    put p 32 (put p 0 buf) = buf := by
  rcases p with _ | p
  · rfl
  · exact set_restore (h p rfl)

theorem put_restore_two {p q : Option ℕ} (hp : ∀ i, p = some i → buf[i]? = some 32)
    (hq : ∀ i, q = some i → (put p 0 buf)[i]? = some 32) :
    put q 32 (put p 32 (put q 0 (put p 0 buf))) = buf := by
  rcases p with _ | p
  · exact put_restore hq
  · rcases q with _ | q
    · exact set_restore (hp p rfl)
    · exact set_restore_two (hp p rfl) (by decide) (hq q rfl)

/-- The line is put back together, whatever parts it has: each byte that is replaced is
the space that what was looked for starts with. -/
theorem cut_restore (buf : Buffer) (routine : ℕ) :
    put (cut buf routine).inparams 32 (put (cut buf routine).outparams 32
      (put (cut buf routine).firstSpace 32 (cut buf routine).buf)) = buf := by
  have hout : ∀ buf' q, strstr buf' routine (bytes " OUT ") = some q → buf'[q]? = some 32 :=
    fun _ _ h => strstr_char h
  have hin : ∀ buf' q, strstr buf' routine (bytes " IN ") = some q → buf'[q]? = some 32 :=
    fun _ _ h => strstr_char h
  have hspace : ∀ buf' q, strstr buf' routine (bytes " ") = some q → buf'[q]? = some 32 :=
    fun _ _ h => strstr_char h
  simp only [cut]
  rw [put_restore (hspace _)]
  exact put_restore_two (hout _) (hin _)

/-- `split` gives the parser the parts of the line, and leaves the buffer as it was. -/
theorem split_run (interfaceName routine : ℕ) (fn : RoutineParser α) (prefixCrc : UInt32) :
    (split interfaceName routine fn prefixCrc).run buf =
      (fn (cut buf routine).buf interfaceName routine (crc32 (cstr buf routine) prefixCrc)
        (cut buf routine).inp (cut buf routine).out).map fun a => (a, buf) := by
  have hrestore := cut_restore buf routine
  have hrun : (split interfaceName routine fn prefixCrc).run buf =
      (fn (cut buf routine).buf interfaceName routine (crc32 (cstr buf routine) prefixCrc)
        (cut buf routine).inp (cut buf routine).out).map fun a =>
          (a, put (cut buf routine).inparams 32 (put (cut buf routine).outparams 32
            (put (cut buf routine).firstSpace 32 (cut buf routine).buf))) := by
    rcases h : fn (cut buf routine).buf interfaceName routine (crc32 (cstr buf routine) prefixCrc)
      (cut buf routine).inp (cut buf routine).out with e | a
    all_goals
      have h' := h
      simp only [cut, Cut.inp, Cut.out] at h'
      simp [split, h']
      rfl
  rw [hrun, hrestore]

end Split

/-! ## The generators -/

/-- What the client's stub for a routine prints. -/
structure Stub where
  interfaceName : Buffer
  name : Buffer
  /-- the type of the result, if there is one -/
  returnType : Option Buffer
  /-- the type that the result of the call is converted to -/
  conversion : Option Buffer
  /-- the parameters of the stub -/
  declared : List Parameter
  /-- the digits of the name of the function that makes the call -/
  inParams : ℕ
  outParams : ℕ
  /-- the call code -/
  code : UInt32
  /-- what is passed after it -/
  passed : List Buffer
deriving Repr, DecidableEq

/-- The `switch` on the number of results: two and more are "TODO". -/
def printReturnType (buf : Buffer) (outParams : ℕ) (out : Option ℕ) :
    Except Failure (Option Buffer) :=
  match outParams, out with
  | 1, some p => (printParameterType buf p).map some
  | _, _ => .ok none

/-- `if (out_params > 0) { … print_parameter_type( out ); … }`. -/
def printConversion (buf : Buffer) (outParams : ℕ) (out : Option ℕ) :
    Except Failure (Option Buffer) :=
  match outParams, out with
  | _ + 1, some p => (printParameterType buf p).map some
  | _, _ => .ok none

def exportInterfaceRoutineClientCode : RoutineParser Stub :=
  fun buf interfaceName name crc inp out => do
    let outParams := parametersCount buf out
    let returnType ← printReturnType buf outParams out
    let inParams := parametersCount buf inp
    let declared ← forParameters buf printParameterDecl inParams inp
    let conversion ← printConversion buf outParams out
    let passed ← forParameters buf printParameterName inParams inp
    .ok { interfaceName := cstr buf interfaceName, name := cstr buf name, returnType, conversion,
          declared, inParams, outParams, code := crc, passed }

structure ClientInterface where
  name : Buffer
  /-- the type code that `get_service` asks for -/
  serviceType : Option UInt32
  stubs : List Stub
deriving Repr, DecidableEq

/-- The declarations of a routine in `ISAMBARD_…__SERVER`. -/
structure Declaration where
  interfaceName : Buffer
  name : Buffer
  /-- the parameters of `…__return` -/
  returned : List Parameter
  received : List Parameter
deriving Repr, DecidableEq

def exportInterfaceRoutineServerCode : RoutineParser Declaration :=
  fun buf interfaceName name _ inp out => do
    let returned ← forParameters buf printParameterDecl (parametersCount buf out) out
    let received ← forParameters buf printParameterDecl (parametersCount buf inp) inp
    .ok { interfaceName := cstr buf interfaceName, name := cstr buf name, returned, received }

/-- A case of `AS_…`. -/
structure Case where
  code : UInt32
  interfaceName : Buffer
  name : Buffer
  /-- the types that `p1`, `p2`, … are converted to -/
  received : List Buffer
deriving Repr, DecidableEq

def exportInterfaceRoutineCaseCode : RoutineParser Case :=
  fun buf interfaceName name crc inp _ => do
    let received ← forParameters buf printParameterType (parametersCount buf inp) inp
    .ok { code := crc, interfaceName := cstr buf interfaceName, name := cstr buf name, received }

def exportInterfaceRoutineReturnFunctions : RoutineParser (Buffer × Buffer) :=
  fun buf interfaceName name _ _ _ => .ok (cstr buf interfaceName, cstr buf name)

structure ServerInterface where
  name : Buffer
  declarations : List Declaration
  /-- the type code of `register_service` -/
  serviceType : Option UInt32
  cases : List Case
  returnFunctions : List (Buffer × Buffer)
deriving Repr, DecidableEq

namespace Source

/-- `lines[l] + 10` for the line that starts an interface. -/
def interfaceName (src : Source) (i : ℕ) : ℕ := src.lines.getD (src.interfaces.getD i 0) 0 + 10

/-- The lines between the start and the end of an interface. -/
def routines (src : Source) (i : ℕ) : List ℕ :=
  (List.range' (src.interfaces.getD i 0 + 1)
    (src.ends.getD i 0 - (src.interfaces.getD i 0 + 1))).map fun l => src.lines.getD l 0

end Source

/-- `crc32( "__", 2, crc32( interface_name, …, 0 ) )`. -/
def interfaceCrc (name : Buffer) : UInt32 := crc32 (bytes "__") (crc32 name 0)

def exportClientInterface (src : Source) (i : ℕ) : Generator ClientInterface := do
  let interfaceName := src.interfaceName i
  let name := cstr (← get) interfaceName
  let crc := interfaceCrc name
  let stubs ← (src.routines i).mapM fun routine =>
    split interfaceName routine exportInterfaceRoutineClientCode crc
  return { name, serviceType := if name = bytes "SYSTEM" then none else some crc, stubs }

/-- `export_client_code`. -/
def exportClientCode (src : Source) : Generator (List ClientInterface) :=
  (List.range src.interfaces.length).mapM (exportClientInterface src)

def exportServerInterface (src : Source) (i : ℕ) : Generator ServerInterface := do
  let interfaceName := src.interfaceName i
  let name := cstr (← get) interfaceName
  let crc := interfaceCrc name
  let declarations ← (src.routines i).mapM fun routine =>
    split interfaceName routine exportInterfaceRoutineServerCode crc
  let cases ← (src.routines i).mapM fun routine =>
    split interfaceName routine exportInterfaceRoutineCaseCode crc
  let returnFunctions ← (src.routines i).mapM fun routine =>
    split interfaceName routine exportInterfaceRoutineReturnFunctions crc
  return { name, declarations, serviceType := if name = bytes "SYSTEM" then none else some crc,
           cases, returnFunctions }

/-- `export_server_code`. -/
def exportServerCode (src : Source) : Generator (List ServerInterface) :=
  (List.range src.interfaces.length).mapM (exportServerInterface src)

/-- `main`, as `client`. -/
def client (file : Buffer) : Except Failure (List ClientInterface) := do
  let src ← readFile file
  (exportClientCode src).run' src.buf

/-- `main`, as `server`. -/
def server (file : Buffer) : Except Failure (List ServerInterface) := do
  let src ← readFile file
  (exportServerCode src).run' src.buf

/-! ## What the parsers of routines print -/

section Routines

variable {buf : Buffer} {interfaceName name : ℕ} {crc : UInt32} {inp out : Option ℕ}

theorem clientCode_ok {stub : Stub}
    (h : exportInterfaceRoutineClientCode buf interfaceName name crc inp out = .ok stub) :
    stub.code = crc ∧ stub.inParams = parametersCount buf inp ∧
      stub.outParams = parametersCount buf out ∧ stub.declared.length = parametersCount buf inp ∧
      stub.passed.length = parametersCount buf inp := by
  rcases bind_ok h with ⟨returnType, -, h⟩
  rcases bind_ok h with ⟨declared, hdeclared, h⟩
  rcases bind_ok h with ⟨_, -, h⟩
  rcases bind_ok h with ⟨passed, hpassed, h⟩
  cases h
  exact ⟨rfl, rfl, rfl, forParameters_length hdeclared, forParameters_length hpassed⟩

theorem serverCode_ok {d : Declaration}
    (h : exportInterfaceRoutineServerCode buf interfaceName name crc inp out = .ok d) :
    d.received.length = parametersCount buf inp ∧ d.returned.length = parametersCount buf out := by
  rcases bind_ok h with ⟨returned, hreturned, h⟩
  rcases bind_ok h with ⟨received, hreceived, h⟩
  cases h
  exact ⟨forParameters_length hreceived, forParameters_length hreturned⟩

theorem caseCode_ok {c : Case}
    (h : exportInterfaceRoutineCaseCode buf interfaceName name crc inp out = .ok c) :
    c.code = crc ∧ c.received.length = parametersCount buf inp := by
  rcases bind_ok h with ⟨received, hreceived, h⟩
  cases h
  exact ⟨rfl, forParameters_length hreceived⟩

end Routines

/-! ## Passes over the lines -/

section Passes

variable {ι β : Type} {buf : Buffer}

theorem run_bind_ok {γ : Type} {x : Generator β} {f : β → Generator γ} {c : γ} {buf'' : Buffer}
    (h : (x >>= f).run buf = .ok (c, buf'')) :
    ∃ b buf', x.run buf = .ok (b, buf') ∧ (f b).run buf' = .ok (c, buf'') := by
  rcases bind_ok h with ⟨⟨b, buf'⟩, hx, hf⟩
  exact ⟨b, buf', hx, hf⟩

/-- When every element leaves the buffer as it is, all of them see the same one. -/
theorem forall₂_of_mapM {f : ι → Generator β} {l : List ι} {r : List β} {buf' : Buffer}
    (hkeep : ∀ a b buf', (f a).run buf = .ok (b, buf') → buf' = buf)
    (h : (l.mapM f).run buf = .ok (r, buf')) :
    buf' = buf ∧ List.Forall₂ (fun a b => (f a).run buf = .ok (b, buf)) l r := by
  induction l generalizing r buf' with
  | nil =>
    cases h
    exact ⟨rfl, .nil⟩
  | cons a l ih =>
    rw [List.mapM_cons] at h
    rcases run_bind_ok h with ⟨b, buf₁, hb, htail⟩
    rcases hkeep a b buf₁ hb with rfl
    rcases run_bind_ok htail with ⟨r', buf₂, hr', hpure⟩
    rcases ih hr' with ⟨rfl, hall⟩
    cases hpure
    exact ⟨rfl, .cons hb hall⟩

theorem split_ok {interfaceName routine : ℕ} {fn : RoutineParser β} {crc : UInt32} {b : β}
    {buf' : Buffer} (h : (split interfaceName routine fn crc).run buf = .ok (b, buf')) :
    buf' = buf ∧ fn (cut buf routine).buf interfaceName routine (crc32 (cstr buf routine) crc)
      (cut buf routine).inp (cut buf routine).out = .ok b := by
  rw [split_run] at h
  rcases hr : fn (cut buf routine).buf interfaceName routine (crc32 (cstr buf routine) crc)
    (cut buf routine).inp (cut buf routine).out with e | r <;> rw [hr] at h <;> cases h
  exact ⟨rfl, rfl⟩

/-- What a pass of `split` over some lines gives, line by line. -/
theorem splits_ok {interfaceName : ℕ} {fn : RoutineParser β} {crc : UInt32} {l : List ℕ}
    {r : List β} {buf' : Buffer}
    (h : (l.mapM fun routine => split interfaceName routine fn crc).run buf = .ok (r, buf')) :
    buf' = buf ∧ List.Forall₂ (fun routine b => fn (cut buf routine).buf interfaceName routine
      (crc32 (cstr buf routine) crc) (cut buf routine).inp (cut buf routine).out = .ok b) l r := by
  rcases forall₂_of_mapM (fun _ _ _ hs => (split_ok hs).1) h with ⟨rfl, hall⟩
  exact ⟨rfl, hall.imp fun _ _ hs => (split_ok hs).2⟩

end Passes

/-! ## Agreement -/

/-- CRC-32 of the interface's name, `__` and the line. -/
def callCode (name line : Buffer) : UInt32 := crc32 (name ++ bytes "__" ++ line) 0

theorem callCode_eq (name line : Buffer) : callCode name line = crc32 line (interfaceCrc name) := by
  unfold callCode interfaceCrc
  rw [crc32_append, crc32_append]

/-- The names of the interfaces of a file, each with its lines. -/
def Source.text (src : Source) : List (Buffer × List Buffer) :=
  (List.range src.interfaces.length).map fun i =>
    (cstr src.buf (src.interfaceName i), (src.routines i).map (cstr src.buf))

/-- The stub and the case for a line: the same call code, as many values passed as
received, and as many results returned as expected. -/
structure RoutineAgrees (name line : Buffer) (stub : Stub) (d : Declaration) (c : Case) :
    Prop where
  stubCode : stub.code = callCode name line
  caseCode : c.code = callCode name line
  digits : stub.inParams = stub.passed.length
  declared : stub.declared.length = stub.passed.length
  received : c.received.length = stub.passed.length
  handler : d.received.length = stub.passed.length
  returned : d.returned.length = stub.outParams

/-- The client's and the server's code for an interface agree on the name, the type of
the service and every line. -/
structure InterfaceAgrees (name : Buffer) (lines : List Buffer) (client : ClientInterface)
    (server : ServerInterface) : Prop where
  clientName : client.name = name
  serverName : server.name = name
  serviceType : client.serviceType = server.serviceType
  stubs : client.stubs.length = lines.length
  declarations : server.declarations.length = lines.length
  cases : server.cases.length = lines.length
  routines : ∀ (j : ℕ) line stub d c, lines[j]? = some line → client.stubs[j]? = some stub →
    server.declarations[j]? = some d → server.cases[j]? = some c →
    RoutineAgrees name line stub d c

section Agreement

variable {src : Source} {buf buf' : Buffer} {i : ℕ}

theorem forall₂_getElem? {α β : Type} {R : α → β → Prop} {l : List α} {r : List β}
    (h : List.Forall₂ R l r) {j : ℕ} {a : α} {b : β} (ha : l[j]? = some a) (hb : r[j]? = some b) :
    R a b := by
  rcases List.getElem?_eq_some_iff.1 ha with ⟨hj, rfl⟩
  rcases List.getElem?_eq_some_iff.1 hb with ⟨hj', rfl⟩
  exact (List.forall₂_iff_get.1 h).2 j hj hj'

theorem exportClientInterface_ok {c : ClientInterface}
    (h : (exportClientInterface src i).run buf = .ok (c, buf')) :
    buf' = buf ∧ c.name = cstr buf (src.interfaceName i) ∧
      c.serviceType = (if c.name = bytes "SYSTEM" then none else some (interfaceCrc c.name)) ∧
      List.Forall₂ (fun routine stub => exportInterfaceRoutineClientCode (cut buf routine).buf
        (src.interfaceName i) routine (crc32 (cstr buf routine) (interfaceCrc c.name))
        (cut buf routine).inp (cut buf routine).out = .ok stub) (src.routines i) c.stubs := by
  rcases run_bind_ok h with ⟨_, _, hget, h⟩
  cases hget
  rcases run_bind_ok h with ⟨stubs, buf₁, hstubs, h⟩
  rcases splits_ok hstubs with ⟨rfl, hstubs⟩
  cases h
  exact ⟨rfl, rfl, rfl, hstubs⟩

theorem exportServerInterface_ok {s : ServerInterface}
    (h : (exportServerInterface src i).run buf = .ok (s, buf')) :
    buf' = buf ∧ s.name = cstr buf (src.interfaceName i) ∧
      s.serviceType = (if s.name = bytes "SYSTEM" then none else some (interfaceCrc s.name)) ∧
      List.Forall₂ (fun routine d => exportInterfaceRoutineServerCode (cut buf routine).buf
        (src.interfaceName i) routine (crc32 (cstr buf routine) (interfaceCrc s.name))
        (cut buf routine).inp (cut buf routine).out = .ok d) (src.routines i) s.declarations ∧
      List.Forall₂ (fun routine c => exportInterfaceRoutineCaseCode (cut buf routine).buf
        (src.interfaceName i) routine (crc32 (cstr buf routine) (interfaceCrc s.name))
        (cut buf routine).inp (cut buf routine).out = .ok c) (src.routines i) s.cases := by
  rcases run_bind_ok h with ⟨_, _, hget, h⟩
  cases hget
  rcases run_bind_ok h with ⟨declarations, buf₁, hdeclarations, h⟩
  rcases splits_ok hdeclarations with ⟨rfl, hdeclarations⟩
  rcases run_bind_ok h with ⟨cases, buf₂, hcases, h⟩
  rcases splits_ok hcases with ⟨rfl, hcases⟩
  rcases run_bind_ok h with ⟨returns, buf₃, hreturns, h⟩
  rcases splits_ok hreturns with ⟨rfl, -⟩
  cases h
  exact ⟨rfl, rfl, rfl, hdeclarations, hcases⟩

theorem routine_agrees {buf : Buffer} {interfaceName routine : ℕ} {name : Buffer} {stub : Stub}
    {d : Declaration} {c : Case}
    (hstub : exportInterfaceRoutineClientCode (cut buf routine).buf interfaceName routine
      (crc32 (cstr buf routine) (interfaceCrc name)) (cut buf routine).inp (cut buf routine).out =
        .ok stub)
    (hd : exportInterfaceRoutineServerCode (cut buf routine).buf interfaceName routine
      (crc32 (cstr buf routine) (interfaceCrc name)) (cut buf routine).inp (cut buf routine).out =
        .ok d)
    (hc : exportInterfaceRoutineCaseCode (cut buf routine).buf interfaceName routine
      (crc32 (cstr buf routine) (interfaceCrc name)) (cut buf routine).inp (cut buf routine).out =
        .ok c) : RoutineAgrees name (cstr buf routine) stub d c := by
  rcases clientCode_ok hstub with ⟨hcode, hin, hout, hdeclared, hpassed⟩
  rcases serverCode_ok hd with ⟨hreceived, hreturned⟩
  rcases caseCode_ok hc with ⟨hcode', hreceived'⟩
  rw [← callCode_eq] at hcode hcode'
  constructor
  · exact hcode
  · exact hcode'
  · rw [hin, hpassed]
  · rw [hdeclared, hpassed]
  · rw [hreceived', hpassed]
  · rw [hreceived, hpassed]
  · rw [hreturned, hout]

theorem interface_agrees {c : ClientInterface} {s : ServerInterface}
    (hc : (exportClientInterface src i).run buf = .ok (c, buf))
    (hs : (exportServerInterface src i).run buf = .ok (s, buf)) :
    InterfaceAgrees (cstr buf (src.interfaceName i)) ((src.routines i).map (cstr buf)) c s := by
  rcases exportClientInterface_ok hc with ⟨-, hname, hservice, hstubs⟩
  rcases exportServerInterface_ok hs with ⟨-, hname', hservice', hdecls, hcases⟩
  rw [← hname'] at hname
  constructor
  · rw [hname, hname']
  · exact hname'
  · rw [hservice, hservice', hname]
  · rw [List.length_map, hstubs.length_eq]
  · rw [List.length_map, hdecls.length_eq]
  · rw [List.length_map, hcases.length_eq]
  · intro j line stub d k hline hstub hd hk
    rw [List.getElem?_map] at hline
    rcases Option.map_eq_some_iff.1 hline with ⟨routine, hroutine, rfl⟩
    rw [← hname']
    rw [hname] at hstubs
    exact routine_agrees (forall₂_getElem? hstubs hroutine hstub)
      (forall₂_getElem? hdecls hroutine hd) (forall₂_getElem? hcases hroutine hk)

theorem run'_ok {α : Type} {x : Generator α} {a : α} (h : x.run' buf = .ok a) :
    ∃ buf', x.run buf = .ok (a, buf') := by
  unfold StateT.run' at h
  rcases hx : x buf with e | ⟨b, buf'⟩
  · rw [hx] at h
    cases h
  · rw [hx] at h
    cases h
    exact ⟨buf', hx⟩

/-- **Client stubs and server dispatch agree**, for every file that both programs
accept. -/
theorem generators_agree {file : Buffer} {cs : List ClientInterface} {ss : List ServerInterface}
    (hc : client file = .ok cs) (hs : server file = .ok ss) :
    ∃ src, readFile file = .ok src ∧ cs.length = src.text.length ∧
      ss.length = src.text.length ∧
      ∀ (i : ℕ) name lines c s, src.text[i]? = some (name, lines) → cs[i]? = some c →
        ss[i]? = some s → InterfaceAgrees name lines c s := by
  rcases bind_ok hc with ⟨src, hsrc, hc⟩
  rcases bind_ok hs with ⟨src', hsrc', hs⟩
  cases hsrc.symm.trans hsrc'
  rcases run'_ok hc with ⟨buf₁, hc⟩
  rcases run'_ok hs with ⟨buf₂, hs⟩
  rcases forall₂_of_mapM (fun _ _ _ h => (exportClientInterface_ok h).1) hc with ⟨-, hc⟩
  rcases forall₂_of_mapM (fun _ _ _ h => (exportServerInterface_ok h).1) hs with ⟨-, hs⟩
  have hlen : src.text.length = (List.range src.interfaces.length).length := List.length_map ..
  refine ⟨src, hsrc, hc.length_eq.symm.trans hlen.symm, hs.length_eq.symm.trans hlen.symm, ?_⟩
  intro i name lines c s htext hci hsi
  rcases List.getElem?_map .. ▸ htext |> Option.map_eq_some_iff.1 with ⟨i', hi', he⟩
  cases he
  exact interface_agrees (forall₂_getElem? hc hi' hci) (forall₂_getElem? hs hi' hsi)

end Agreement

theorem exists_of_isOk {α : Type} {x : Except Failure α} (h : x.isOk = true) :
    ∃ a, x = .ok a := by
  rcases x with e | a
  · cases h
  · exact ⟨a, rfl⟩

/-- One of the interfaces of the mailbox driver. -/
def mailboxFile : Buffer := bytes "# mailbox
interface GPU_MAILBOX
  queue_message IN message: NUMBER
end
"

theorem generators_agree_mailbox : ∃ src cs ss, readFile mailboxFile = .ok src ∧
    client mailboxFile = .ok cs ∧ server mailboxFile = .ok ss ∧ cs.length = src.text.length ∧
    ∀ (i : ℕ) name lines c s, src.text[i]? = some (name, lines) → cs[i]? = some c →
      ss[i]? = some s → InterfaceAgrees name lines c s := by
  rcases exists_of_isOk (x := client mailboxFile) (by decide +kernel) with ⟨cs, hcs⟩
  rcases exists_of_isOk (x := server mailboxFile) (by decide +kernel) with ⟨ss, hss⟩
  rcases generators_agree hcs hss with ⟨src, hsrc, hlen, -, hall⟩
  exact ⟨src, cs, ss, hsrc, hcs, hss, hlen, hall⟩

end Isambard.Tools
