import Mathlib
import Dt.Lib.Pairs
import Dt.Lib.Text

/-!
# The private environment of a launch

The head writes variables as pairs of fields behind a magic prefix. The launcher reads the envelope
from its standard input and writes what is not meant for itself into a file; the wrapper reads that
file. Each of the three decoders has its own limits and its own list of names that may start with
`DT_`.

Python texts may hold halves of surrogate pairs, which have no UTF-8. The encoder refuses every
mapping that it cannot write, except that a text without UTF-8, where it comes to one, leaves it with
another error than its own.
-/

namespace Dt.Launch

open Dt.Lib

abbrev Text := List Char

/-! ## Texts of Python -/

/-- A code point of a Python text. -/
inductive PyChar where
  | scalar (c : Char)
  | surrogate (n : Fin 2048)
  deriving DecidableEq

abbrev PyStr := List PyChar

def pyStr (t : Text) : PyStr := t.map .scalar

def pyPair (p : Text × Text) : PyStr × PyStr := (pyStr p.1, pyStr p.2)

/-- The text that `s.encode("utf-8")` encodes. -/
def scalars : PyStr → Option Text
  | [] => some []
  | .scalar c :: s => (scalars s).map (c :: ·)
  | .surrogate _ :: _ => none

/-- A `dict` from texts to texts, in the order of its items. -/
structure PyDict where
  items : List (PyStr × PyStr)
  nodup : (items.map Prod.fst).Nodup

/-! ## Names -/

def maxPrivateEnvBytes : Nat := 128 * 1024
def maxCustomEnvVars : Nat := 64
def maxPrivateEnvVars : Nat := maxCustomEnvVars + 3
def maxPrivateValueBytes : Nat := 64 * 1024
def maxCustomEnvValueBytes : Nat := 16 * 1024
def maxCustomEnvTotalBytes : Nat := 64 * 1024

def tokenName : Text := "DT_LAUNCH_TOKEN".toList

def launcherOnlyNames : List Text := [tokenName]
def runtimeInternalNames : List Text := ["DT_PROXY".toList, "DT_WEBHOOK".toList]
def internalNames : List Text := launcherOnlyNames ++ runtimeInternalNames

/-- `_RESERVED`; the launcher and the wrapper have the same names. -/
def reserved : List Text :=
  (["HOME", "PATH", "USER", "LOGNAME", "SHELL", "TMPDIR", "BASH_ENV", "ENV", "BASHOPTS",
    "SHELLOPTS", "CDPATH", "GLOBIGNORE", "IFS", "LD_PRELOAD", "LD_AUDIT", "LD_LIBRARY_PATH",
    "TMUX", "TMUX_TMPDIR", "PWD", "OLDPWD", "SHLVL", "UID", "EUID", "PPID", "RANDOM", "SRANDOM",
    "SECONDS", "LINENO", "OPTARG", "OPTIND", "FUNCNAME", "GROUPS", "DIRSTACK", "PIPESTATUS",
    "HOSTNAME", "HOSTTYPE", "MACHTYPE", "OSTYPE", "PROMPT_COMMAND", "PS0", "PS1", "PS2", "PS3",
    "PS4", "CUDA_VISIBLE_DEVICES", "NVIDIA_VISIBLE_DEVICES", "ROCR_VISIBLE_DEVICES",
    "VIRTUAL_ENV", "UV_PROJECT_ENVIRONMENT"] : List String).map String.toList

def nameChar (c : Char) : Bool := isAlnum c || c = '_'

/-- `_NAME_RE` -/
def validName (name : Text) : Bool :=
  match name with
  | c :: cs => (nameChar c && !isDigit c) && classRun nameChar 0 127 cs
  | [] => false

def isDtName (name : Text) : Bool := "DT_".toList.isPrefixOf name
def isBashName (name : Text) : Bool := "BASH".toList.isPrefixOf name

/-- `_TOKEN_RE` -/
def validToken (token : Text) : Bool := classRun isHex 32 32 token

/-! ## `private_env.encode` -/

inductive Rejection where
  | tooManyVariables
  | notAllowlisted (name : PyStr)
  | nulByte (name : PyStr)
  | tooLarge (name : PyStr)
  | tooManyCustom
  | invalidName
  | reservedName (name : PyStr)
  | totalLimit
  | launchToken
  | sizeLimit
  | envelopeTooLarge
  | invalidMagic
  | truncated
  | invalidEncoding
  | duplicate (name : Text)
  deriving DecidableEq

/-- What `encode` and `decode` raise. -/
inductive EncodeError where
  /-- `PrivateEnvironmentError` -/
  | rejected (why : Rejection)
  /-- `UnicodeEncodeError` -/
  | unicode
  deriving DecidableEq

/-- A variable whose name starts with `DT_`. -/
def checkInternal (item : PyStr × PyStr) : Except EncodeError (Text × Text) :=
  match internalNames.find? fun name => pyStr name = item.1 with
  | none => .error (.rejected (.notAllowlisted item.1))
  | some name =>
    if .scalar '\x00' ∈ item.2 then .error (.rejected (.nulByte item.1))
    else
      match scalars item.2 with
      | none => .error .unicode
      | some value =>
        if maxPrivateValueBytes < (textBytes value).length then
          .error (.rejected (.tooLarge item.1))
        else .ok (name, value)

/-- `custom_env._validate_name` -/
def validateName (name : PyStr) : Except EncodeError Text :=
  match scalars name with
  | none => .error (.rejected .invalidName)
  | some text =>
    if !validName text then .error (.rejected .invalidName)
    else if isDtName text || isBashName text || text ∈ reserved then
      .error (.rejected (.reservedName name))
    else .ok text

/-- The text of a custom value. -/
def validateValue (item : PyStr × PyStr) : Except EncodeError Text :=
  if .scalar '\x00' ∈ item.2 then .error (.rejected (.nulByte item.1))
  else
    match scalars item.2 with
    | none => .error .unicode
    | some value =>
      if maxCustomEnvValueBytes < (textBytes value).length then
        .error (.rejected (.tooLarge item.1))
      else .ok value

def variableCost (p : Text × Text) : Nat := (textBytes p.1).length + (textBytes p.2).length + 2

/-- The loop of `custom_env.validate`. -/
def validateLoop : Nat → List (PyStr × PyStr) → Except EncodeError (List (Text × Text))
  | _, [] => .ok []
  | total, item :: rest =>
    match validateName item.1 with
    | .error e => .error e
    | .ok name =>
      match validateValue item with
      | .error e => .error e
      | .ok value =>
        if maxCustomEnvTotalBytes < total + variableCost (name, value) then
          .error (.rejected .totalLimit)
        else
          match validateLoop (total + variableCost (name, value)) rest with
          | .error e => .error e
          | .ok result => .ok ((name, value) :: result)

/-- `custom_env.validate` -/
def validate (items : List (PyStr × PyStr)) : Except EncodeError (List (Text × Text)) :=
  if maxCustomEnvVars < items.length then .error (.rejected .tooManyCustom)
  else validateLoop 0 items

def sortByName (pairs : List (Text × Text)) : List (Text × Text) :=
  pairs.insertionSort fun p q => p.1 ≤ q.1

def isDtItem (item : PyStr × PyStr) : Bool := (pyStr "DT_".toList).isPrefixOf item.1

/-- `_normalize` -/
def normalize (items : List (PyStr × PyStr)) : Except EncodeError (List (Text × Text)) :=
  if maxPrivateEnvVars < items.length then .error (.rejected .tooManyVariables)
  else
    match (items.filter isDtItem).mapM checkInternal with
    | .error e => .error e
    | .ok internal =>
      match validate (items.filter fun item => !isDtItem item) with
      | .error e => .error e
      | .ok custom =>
        if internal.any fun p => p.1 = tokenName && !validToken p.2 then
          .error (.rejected .launchToken)
        else .ok (sortByName (internal ++ custom))

def magic : List Nat := textBytes "DT_PRIVATE_ENV_V1".toList ++ [0]

/-- The pairs behind the magic prefix. -/
def envelope (pairs : List (Text × Text)) : List Nat :=
  magic ++ encodePairs 0 (pairs.map fun p => (textBytes p.1, textBytes p.2))

/-- `encode` -/
def encode (values : PyDict) : Except EncodeError (List Nat) :=
  match normalize values.items with
  | .error e => .error e
  | .ok normalized =>
    if maxPrivateEnvBytes < (envelope normalized).length then .error (.rejected .sizeLimit)
    else .ok (envelope normalized)

/-! ## `private_env.decode` -/

def decodeFields : List Text → List (List Nat × List Nat) → Except EncodeError (List (Text × Text))
  | _, [] => .ok []
  | seen, field :: rest =>
    match asciiText field.1, bytesText field.2 with
    | some name, some value =>
      if name ∈ seen then .error (.rejected (.duplicate name))
      else
        match decodeFields (name :: seen) rest with
        | .error e => .error e
        | .ok decoded => .ok ((name, value) :: decoded)
    | _, _ => .error (.rejected .invalidEncoding)

/-- `decode` -/
def decode (payload : List Nat) : Except EncodeError (List (Text × Text)) :=
  if maxPrivateEnvBytes < payload.length then .error (.rejected .envelopeTooLarge)
  else if !magic.isPrefixOf payload then .error (.rejected .invalidMagic)
  else
    match decodePairs 0 (payload.drop magic.length) with
    | none => .error (.rejected .truncated)
    | some fields =>
      match decodeFields [] fields with
      | .error e => .error e
      | .ok decoded => normalize (decoded.map pyPair)

/-! ## The loaders -/

/-- One variable of a loader with its own internal names. -/
def loadField (internal : List Text) (seen : List Text) (field : List Nat × List Nat) :
    Option (Text × Text) :=
  match asciiText field.1, bytesText field.2 with
  | some name, some value =>
    if name ∈ seen || !validName name then none
    else if isDtName name && name ∉ internal then none
    else if !isDtName name && (isBashName name || name ∈ reserved) then none
    else if maxPrivateValueBytes < (textBytes value).length then none
    else some (name, value)
  | _, _ => none

def loadFields (internal : List Text) : List Text → List (List Nat × List Nat) →
    Option (List (Text × Text))
  | _, [] => some []
  | seen, field :: rest =>
    (loadField internal seen field).bind fun p =>
      (loadFields internal (p.1 :: seen) rest).map (p :: ·)

/-- The variables of an envelope; none when the loader fails. -/
def loadEnvelope (internal : List Text) (maxVars : Nat) (raw : List Nat) :
    Option (List (Text × Text)) :=
  if maxPrivateEnvBytes < raw.length || !magic.isPrefixOf raw then none
  else
    (decodePairs 0 (raw.drop magic.length)).bind fun fields =>
      if maxVars < fields.length then none else loadFields internal [] fields

/-- The runtime file: what is not for the launcher alone. -/
def runtimeFile (values : List (Text × Text)) : List Nat :=
  envelope (sortByName (values.filter fun p => p.1 ∉ launcherOnlyNames))

/-- The loader of the launcher: the variables, and the runtime file it writes. -/
def launcherLoad (raw : List Nat) : Option (List (Text × Text) × List Nat) :=
  (loadEnvelope internalNames 67 raw).bind fun values =>
    if values.any fun p => p.1 = tokenName && p.2 ≠ [] && !validToken p.2 then none
    else some (values, runtimeFile values)

/-- The loader of the wrapper. -/
def wrapperLoad (raw : List Nat) : Option (List (Text × Text)) :=
  loadEnvelope runtimeInternalNames 66 raw

end Dt.Launch
