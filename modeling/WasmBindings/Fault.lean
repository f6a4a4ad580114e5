namespace WasmBindings

inductive DiagnosisKind where
  | general
  | missingSource
  | classNotFound
  | nameCollision
  deriving DecidableEq, Repr

structure Diagnosis where
  kind : DiagnosisKind
  message : String
  context : List (String × String)
  deriving DecidableEq, Repr

def Diagnosis.text (d : Diagnosis) : String :=
  match d.context with
  | [] => d.message
  | entries =>
    d.message ++ " [" ++ String.intercalate " | " (entries.map fun e => e.1 ++ "=" ++ e.2) ++ "]"

/-- What ends a run.  A value without fields or text operations that is asked for one is
`fieldless`, and any other value of the wrong kind is `unfit`. -/
inductive Fault where
  | fieldless
  | unfit
  | unusablePath
  | nameTooLong
  | crash (text : String)
  | missingFile
  | isDirectory
  | notDirectory
  | fileExists
  | diagnosed (d : Diagnosis)
  deriving DecidableEq, Repr

end WasmBindings
