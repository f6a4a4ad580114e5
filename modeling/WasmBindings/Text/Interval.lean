namespace WasmBindings.Text

/-- Membership in the set that the ascending `bounds` describe. -/
def within : List Nat → Nat → Bool
  | lo :: hi :: rest, n => if n < lo then false else n < hi || within rest n
  | [lo], n => lo ≤ n
  | [], _ => false

end WasmBindings.Text
