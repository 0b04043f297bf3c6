import ConcurrencyAnalyzer.Library.OptionStream
import Mathlib.Data.List.Range

namespace ConcurrencyAnalyzer.CompileCommand

-- Where an argument comes from. No step below reads it.
inductive Origin where
  | user (position : Nat)
  | unoptimized
  | flag
  | input
  deriving DecidableEq, Repr

structure Arg where
  text : String
  origin : Origin
  deriving DecidableEq, Repr

structure CompileRequest where
  inputFile : String
  extraCompileArgs : List String

def userArgs (request : CompileRequest) : List Arg :=
  request.extraCompileArgs.zipIdx.map fun entry => ⟨entry.1, .user entry.2⟩

def hasExactToken (args : List Arg) (token : String) : Bool :=
  args.any (·.text = token)

def appendIfMissing (args : List Arg) (arg : Arg) : List Arg :=
  if hasExactToken args arg.text then args else args ++ [arg]

def startsWith (start text : String) : Bool := start.toList.isPrefixOf text.toList

def namesOutput (text : String) : Bool :=
  startsWith "-o=" text || (2 < text.length && startsWith "-o" text)

def removeOutputPathArgs : List Arg → List Arg
  | [] => []
  | [arg] => if arg.text = "-o" || namesOutput arg.text then [] else [arg]
  | arg :: next :: rest =>
      if arg.text = "-o" then removeOutputPathArgs rest
      else if namesOutput arg.text then removeOutputPathArgs (next :: rest)
      else arg :: removeOutputPathArgs (next :: rest)

def unoptimized : Arg := ⟨"-O0", .unoptimized⟩

def forceUnoptimizedCodegen (args : List Arg) : List Arg := args ++ [unoptimized]

def turnsWarningsIntoErrors (text : String) : Bool :=
  startsWith "-Werror" text || text = "-pedantic-errors"

def handsOn (arg : Arg) : Bool := arg.text = "-Xclang"

-- `-Xclang` and the argument after it go, or stay, as one.
def removeWarningsAsErrors : List Arg → List Arg
  | [] => []
  | [arg] => if turnsWarningsIntoErrors arg.text then [] else [arg]
  | arg :: next :: rest =>
      if handsOn arg then
        if turnsWarningsIntoErrors next.text then removeWarningsAsErrors rest
        else arg :: next :: removeWarningsAsErrors rest
      else if turnsWarningsIntoErrors arg.text then removeWarningsAsErrors (next :: rest)
      else arg :: removeWarningsAsErrors (next :: rest)

def buildLL (request : CompileRequest) : List Arg :=
  let args := forceUnoptimizedCodegen (userArgs request)
  let args := removeWarningsAsErrors args
  let args := removeOutputPathArgs args
  let args := appendIfMissing args ⟨"-emit-llvm", .flag⟩
  let args := appendIfMissing args ⟨"-S", .flag⟩
  let args := appendIfMissing args ⟨"-g", .flag⟩
  appendIfMissing args ⟨request.inputFile, .input⟩

def buildBC (request : CompileRequest) : List Arg :=
  let args := forceUnoptimizedCodegen (userArgs request)
  let args := removeWarningsAsErrors args
  let args := args.filter (·.text ≠ "-S")
  let args := removeOutputPathArgs args
  let args := appendIfMissing args ⟨"-emit-llvm", .flag⟩
  let args := appendIfMissing args ⟨"-c", .flag⟩
  let args := appendIfMissing args ⟨"-g", .flag⟩
  appendIfMissing args ⟨request.inputFile, .input⟩

end ConcurrencyAnalyzer.CompileCommand
