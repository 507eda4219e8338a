import SpeakingClock.Basic

/-! `include/speech_tokens.h` and `src/speech_task.c`: the words of the numbers, and the bytes that
    `uart_send_token` and `speak_time` put on the UART. -/

namespace SpeakingClock

/-! ### Fixed tokens -/

def tokenThe : String := "THE"
def tokenTime : String := "TIME"
def tokenIs : String := "IS"
def tokenHours : String := "HOURS"
def tokenHour : String := "HOUR"
def tokenMinutes : String := "MINUTES"
def tokenMinute : String := "MINUTE"
def tokenAnd : String := "AND"
def tokenSeconds : String := "SECONDS"
def tokenSecond : String := "SECOND"

/-- `number_words`: the words of 0 to 59. -/
def numberWords : List String :=
  ["ZERO",        "ONE",        "TWO",        "THREE",        "FOUR",
   "FIVE",        "SIX",        "SEVEN",      "EIGHT",        "NINE",
   "TEN",         "ELEVEN",     "TWELVE",     "THIRTEEN",     "FOURTEEN",
   "FIFTEEN",     "SIXTEEN",    "SEVENTEEN",  "EIGHTEEN",     "NINETEEN",
   "TWENTY",      "TWENTY_ONE", "TWENTY_TWO", "TWENTY_THREE", "TWENTY_FOUR",
   "TWENTY_FIVE", "TWENTY_SIX", "TWENTY_SEVEN", "TWENTY_EIGHT", "TWENTY_NINE",
   "THIRTY",      "THIRTY_ONE", "THIRTY_TWO", "THIRTY_THREE", "THIRTY_FOUR",
   "THIRTY_FIVE", "THIRTY_SIX", "THIRTY_SEVEN", "THIRTY_EIGHT", "THIRTY_NINE",
   "FORTY",       "FORTY_ONE",  "FORTY_TWO",  "FORTY_THREE",  "FORTY_FOUR",
   "FORTY_FIVE",  "FORTY_SIX",  "FORTY_SEVEN", "FORTY_EIGHT", "FORTY_NINE",
   "FIFTY",       "FIFTY_ONE",  "FIFTY_TWO",  "FIFTY_THREE",  "FIFTY_FOUR",
   "FIFTY_FIVE",  "FIFTY_SIX",  "FIFTY_SEVEN", "FIFTY_EIGHT", "FIFTY_NINE"]

/-- `number_words[n]`, read only under the guard `n < 60`. -/
def numberWord (n : UInt8) : String := numberWords.getD n.toNat ""

/-- The tokens of one field: its number word, unless the guard `n < 60` drops it, and its unit. -/
def fieldTokens (n : UInt8) (one many : String) : List String :=
  (if n < 60 then [numberWord n] else []) ++ [if n == 1 then one else many]

/-- The tokens that `speak_time` sends, in order. -/
def timeTokens (m : TimeMsg) : List String :=
  [tokenThe, tokenTime, tokenIs] ++ fieldTokens m.hour tokenHour tokenHours ++
    fieldTokens m.minute tokenMinute tokenMinutes ++ [tokenAnd] ++
    fieldTokens m.second tokenSecond tokenSeconds

def uartSendToken (token : String) : Bytes := cstr "TOKEN " ++ cstr token ++ cstr "\r\n"

/-- `speak_time` up to the end marker. -/
def speakTokens (m : TimeMsg) : Bytes :=
  cstr "\r\n--- Speech Output ---\r\n" ++ (timeTokens m).flatMap uartSendToken ++ cstr "END\r\n"

/-- What `speak_time` prints after the end marker. -/
def speakTrailer : Bytes := cstr "--- End Speech ---\r\n\r\n"

def speakTime (m : TimeMsg) : Bytes := speakTokens m ++ speakTrailer

/-- What `speech_task` prints before it calls `speak_time`. -/
def announceLine (m : TimeMsg) : Bytes := cstr "Speech Task: Announcing " ++ m.fmt ++ cstr "\r\n"

/-- In range, no guard of `speak_time` drops a number word. -/
theorem timeTokens_of_inRange {m : TimeMsg} (h : m.InRange) :
    timeTokens m =
      [tokenThe, tokenTime, tokenIs,
        numberWord m.hour, if m.hour == 1 then tokenHour else tokenHours,
        numberWord m.minute, if m.minute == 1 then tokenMinute else tokenMinutes,
        tokenAnd,
        numberWord m.second, if m.second == 1 then tokenSecond else tokenSeconds] := by
  have hhour : m.hour < 60 := UInt8.lt_trans h.1 (by decide)
  simp [timeTokens, fieldTokens, hhour, h.2.1, h.2.2]

end SpeakingClock
