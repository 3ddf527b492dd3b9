import DamnWebServer.Log.LogPipeline
import DamnWebServer.Log.RecordText

/-!
# Reading the log files back

Where the output of `Logger` is `Async_Logging::append`, a message is the array of a stream,
one record in 4000 bytes. A file is made of whole buffers, and a buffer begins with some
messages; how many, is not written down, and behind them stand the remains of older ones. With
these numbers the files are read back: record by record, in the order of the statements.
-/

namespace DamnWebServer

/-- The message that the statement hands to `g_output`. -/
def LogStatement.Prints (st : LogStatement) (logline : List Byte) : Prop :=
  st.Legible ∧ ∃ memory hmemory fatal, st.output memory hmemory = .ok (logline, fatal)

theorem LogStatement.Prints.read {st : LogStatement} {logline : List Byte} (h : st.Prints logline) :
    logline.length = smallBufferSize ∧ readRecord logline = some st.record := by
  obtain ⟨hlegible, memory, hmemory, fatal, hout⟩ := h
  obtain ⟨s, hs, hread⟩ := hlegible.read_stream memory hmemory
  obtain ⟨t, ht, hend⟩ := bind_eq_ok hout
  cases hs.symm.trans ht
  cases hend
  exact ⟨by rw [s.slice_eq_data, s.length_data], hread⟩

namespace LogPipeline

end LogPipeline

end DamnWebServer
