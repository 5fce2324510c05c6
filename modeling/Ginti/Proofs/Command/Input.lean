import Ginti.Command.Run

namespace Ginti.Command

variable {arguments : List String} {r next : Reading} {settings : Settings}

variable {openFile other : String → Except OpenError (List UInt8)}

theorem readSource_eq_of_opens_alike {filename : String} (h : openFile filename = other filename) :
    readSource openFile filename = readSource other filename := by
  simp only [readSource, h]

/-- The listing command looks at no file but the one that its arguments name, so it is enough to
    have opened this one. Refused arguments name none. -/
theorem list_eq_of_opens_alike (h : ∀ name ∈ listedFile? arguments, openFile name = other name) :
    list openFile arguments = list other arguments := by
  unfold listedFile? at h
  unfold list
  cases hsettled : Settings.ofArguments arguments with
  | error refusal => rfl
  | ok settings =>
    rw [hsettled] at h
    simp only [readSource_eq_of_opens_alike (h settings.input rfl)]

/-- The token command looks at no file but its first argument. -/
theorem dump_eq_of_opens_alike (h : ∀ name ∈ arguments.head?, openFile name = other name) :
    dump openFile arguments = dump other arguments := by
  cases arguments with
  | nil => rfl
  | cons filename arguments => simp only [dump, readSource_eq_of_opens_alike (h filename rfl)]

end Ginti.Command
