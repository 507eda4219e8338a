import SpeakingClock.Theorems.Announcement
import SpeakingClock.Theorems.Query
import SpeakingClock.Firmware

/-! The log lines of the firmware. Everything that the tasks print besides the token lines and the end
    marker is complete lines that the bridge passes through (`LogText`). -/

namespace SpeakingClock
open LineReader

/-- Complete foreign lines. -/
def LogText (bs : Bytes) : Prop := ∃ ls, bs = unlines lf ls ∧ ∀ l ∈ ls, Foreign l

namespace LogText

theorem nil : LogText [] := ⟨[], rfl, by simp⟩

theorem append {xs ys : Bytes} (hx : LogText xs) (hy : LogText ys) : LogText (xs ++ ys) := by
  obtain ⟨ls, rfl, hls⟩ := hx
  obtain ⟨ms, rfl, hms⟩ := hy
  refine ⟨ls ++ ms, (unlines_append _ _ _).symm, fun l hl => ?_⟩
  rcases List.mem_append.mp hl with hl | hl
  · exact hls l hl
  · exact hms l hl

/-- One line: a text that begins it, and bytes printed after that. -/
theorem line {text mid : Bytes} (hhead : Headed text) (htext : lf ∉ text) (hmid : lf ∉ mid) :
    LogText (text ++ mid ++ cstr "\r\n") := by
  have hcrlf : cstr "\r\n" = [cr] ++ [lf] := by decide
  have hlf : lf ∉ text ++ mid ++ [cr] := by
    simp only [List.mem_append, List.mem_singleton, not_or]
    exact ⟨⟨htext, hmid⟩, by decide⟩
  refine ⟨[text ++ mid ++ [cr]], by rw [hcrlf, unlines_cons]; simp [unlines], fun l hl => ?_⟩
  rw [List.mem_singleton.mp hl]
  exact ((hhead.append mid).append [cr]).foreign hlf

/-- A fixed text whose lines are blank or begin as a foreign line does. -/
theorem of_split {bs : Bytes} (h : (split lf bs).buf = [] ∧ ∀ l ∈ (split lf bs).st, l = [cr] ∨ Headed l) :
    LogText bs := by
  obtain ⟨hbuf, hlines⟩ := h
  refine ⟨(split lf bs).st, ?_, fun l hl => ?_⟩
  · have h : unlines lf (split lf bs).st ++ (split lf bs).buf = bs := unlines_split bs
    rw [hbuf, List.append_nil] at h
    exact h.symm
  · rcases hlines l hl with rfl | h
    · exact Foreign.blank
    · exact h.foreign (not_mem_of_mem_split hl)

end LogText

/-! ### Printed values -/

theorem lf_not_mem_of_isDigit {bs : Bytes} (h : ∀ b ∈ bs, IsDigit b) : lf ∉ bs := fun hm =>
  absurd (h lf hm) (by decide)

theorem lf_not_mem_fmtU (n : Nat) : lf ∉ fmtU n := lf_not_mem_of_isDigit (toDigits_isDigit (by decide) (by decide))

theorem lf_not_mem_fmtD (n : Int) : lf ∉ fmtD n := by
  have hminus : lf ∉ cstr "-" := by decide
  unfold fmtD
  split
  · simp [hminus, lf_not_mem_fmtU]
  · exact lf_not_mem_fmtU _

theorem lf_not_mem_fmt02d (n : UInt8) : lf ∉ fmt02d n := by
  have hzero : lf ∉ cstr "0" := by decide
  unfold fmt02d
  split
  · simp [hzero, lf_not_mem_fmtU]
  · exact lf_not_mem_fmtU _

theorem lf_not_mem_fmtHex (width n : Nat) : lf ∉ fmtHex width n := by
  have hdigits : lf ∉ (Nat.toDigits 16 n).map fun c => UInt8.ofNat c.toNat :=
    lf_not_mem_of_isDigit (toDigits_isDigit (by decide) (by decide))
  have hpad : ∀ k, lf ∉ List.replicate k (48 : UInt8) := fun k h => absurd (List.eq_of_mem_replicate h) (by decide)
  unfold fmtHex
  simp only [List.mem_append, not_or]
  exact ⟨hpad _, hdigits⟩

theorem lf_not_mem_fmt (m : TimeMsg) : lf ∉ m.fmt := by
  have hcolon : lf ∉ cstr ":" := by decide
  simp [TimeMsg.fmt, lf_not_mem_fmt02d, hcolon]

theorem lf_not_mem_ntoa (ip : Ip4) : lf ∉ ip.ntoa := by
  have hdot : lf ∉ cstr "." := by decide
  simp [Ip4.ntoa, lf_not_mem_fmtU, hdot]

/-! ### Texts -/

theorem logText_mainText : LogText mainText := .of_split (by decide +kernel)

theorem logText_keyBanner : LogText keyBanner := .of_split (by decide +kernel)

theorem logText_keyRequest : LogText (cstr "Key: Time request received!\r\n") := .of_split (by decide)

theorem logText_speechBanner : LogText speechBanner := .of_split (by decide)

theorem logText_announceLine (m : TimeMsg) : LogText (announceLine m) :=
  .line (by decide) (by decide) (lf_not_mem_fmt m)

theorem logText_speakTrailer : LogText speakTrailer := .of_split (by decide)

theorem logText_hwInitText (hw : HwInit) : LogText (hwInitText hw) := by
  have hex : ∀ {text : Bytes} (n : Nat), Headed text → lf ∉ text → LogText (text ++ fmtHex 8 n ++ cstr "\r\n") :=
    fun n hhead htext => .line hhead htext (lf_not_mem_fmtHex _ _)
  have reset : LogText (if hw.resetTimeout then cstr "LAN9118: WARNING - soft reset timeout (continuing)\r\n"
      else cstr "LAN9118: Soft reset complete\r\n") := by
    split
    · exact .of_split (by decide)
    · exact .of_split (by decide)
  unfold hwInitText
  refine .append (.append (.append (.append (.append (.append ?_ ?_) ?_) reset) ?_) ?_) ?_
  · exact .of_split (by decide)
  · exact hex _ (by decide) (by decide)
  · exact hex _ (by decide) (by decide)
  all_goals exact .of_split (by decide)

theorem logText_ntpBanner (hw : HwInit) : LogText (ntpBanner hw) := by
  unfold ntpBanner
  refine .append (.append (.append (.append (.append (.append (.append (.append ?_ ?_) ?_) ?_)
    (logText_hwInitText hw)) ?_) ?_) ?_) ?_
  all_goals exact .of_split (by decide)

/-! ### What the network code prints -/

/-- From `app` to `app'` only log lines were printed. -/
def App.Logs (app app' : App) : Prop := ∃ bs, app'.uart = app.uart ++ bs ∧ LogText bs

namespace App.Logs
variable {app app' app'' : App}

theorem refl (app : App) : app.Logs app := ⟨[], by simp, .nil⟩

theorem trans (h : app.Logs app') (h' : app'.Logs app'') : app.Logs app'' := by
  obtain ⟨bs, hbs, hlog⟩ := h
  obtain ⟨cs, hcs, hlog'⟩ := h'
  exact ⟨bs ++ cs, by rw [hcs, hbs, List.append_assoc], hlog.append hlog'⟩

theorem puts {text : Bytes} (h : app.Logs app') (htext : LogText text) : app.Logs (app'.puts text) :=
  h.trans ⟨text, rfl, htext⟩

theorem of_uart (h : app'.uart = app.uart) : app.Logs app' := ⟨[], by simp [h], .nil⟩

theorem logText (h : app.Logs app') (hempty : app.uart = []) : LogText app'.uart := by
  obtain ⟨bs, hbs, hlog⟩ := h
  rwa [hbs, hempty]

end App.Logs

theorem run_logs (cb : Callback) (app : App) : app.Logs (cb.run app) := by
  rcases cb with ⟨_ | p, addr, port⟩ | ⟨ip, netmask, gw⟩
  · exact .refl app
  · refine .of_uart ?_
    simp only [Callback.run, Option.elim, App.recv]
    split <;> rfl
  · simp only [Callback.run, netifStatusCallback]
    split
    · refine .puts (.puts (.puts (.puts (.of_uart rfl) ?_) ?_) ?_) ?_
      · exact .of_split (by decide)
      all_goals exact .line (by decide) (by decide) (lf_not_mem_ntoa _)
    · exact .refl app

theorem runPoll_logs (cbs : List Callback) (app : App) : app.Logs (runPoll cbs app) := by
  induction cbs generalizing app with
  | nil => exact .refl app
  | cons cb cbs ih => exact (run_logs cb app).trans (ih (cb.run app))

theorem waitPolls_logs (timeout : Nat) (polls : List (List Callback)) (app : App) :
    app.Logs (waitPolls timeout polls app) := by
  induction timeout generalizing polls app with
  | zero => exact .refl app
  | succ timeout ih =>
    rw [waitPolls]
    split
    · exact .refl app
    · exact (runPoll_logs _ app).trans (ih _ _)

theorem poll_logs (app : App) (cbs : List Callback) : app.Logs (app.poll cbs) := by
  have h := (scripted_listed.poll app ⟨true, true, 0, [cbs]⟩ trivial).1
  rw [App.poll, h]
  exact runPoll_logs _ app

theorem awaitReply_logs (pcb : Nat) (msg : TimeMsg) (app : App) (env : QueryEnv) :
    app.Logs (awaitReply scripted pcb msg (app, env)).2.2.1 := by
  have hwait : app.Logs (waitResponse scripted ntpTimeoutCycles (app, env)).1 := by
    rw [(scripted_listed.waitResponse ntpTimeoutCycles trivial).1]
    exact waitPolls_logs _ _ app
  unfold awaitReply
  dsimp only
  split
  · exact hwait.puts (.of_split (by decide))
  · refine (hwait.puts ?_).puts (.line (by decide) (by decide) (lf_not_mem_fmt _))
    have hepoch : cstr " (NTP epoch)\r\n" = cstr " (NTP epoch)" ++ cstr "\r\n" := by decide
    rw [hepoch, ← List.append_assoc, List.append_assoc (cstr "NTP: Received timestamp = ")]
    refine .line (by decide) (by decide) ?_
    have : lf ∉ cstr " (NTP epoch)" := by decide
    simp [lf_not_mem_fmtU, this]

theorem ntpGetTime_logs (msg : TimeMsg) (app : App) (env : QueryEnv) :
    app.Logs (ntpGetTime scripted msg (app, env)).2.2.1 := by
  have hreq : app.Logs { app.puts (cstr "NTP: Sending time request...\r\n") with
      ntpResponseReceived := false, ntpTimestamp := 0 } :=
    ((App.Logs.refl app).puts (.of_split (by decide))).trans (.of_uart rfl)
  have hto : LogText (cstr "NTP: Sending to " ++ serverAddr.ntoa ++ cstr ":" ++ fmtU ntpPort.toNat ++ cstr "\r\n") :=
    .of_split (by decide)
  unfold ntpGetTime
  dsimp only
  split
  · exact hreq.puts (.of_split (by decide))
  · split
    · exact hreq.puts (.of_split (by decide))
    · split
      · refine (hreq.puts hto).puts ?_
        rename_i err _ _ _
        have hclose : cstr ")\r\n" = cstr ")" ++ cstr "\r\n" := by decide
        rw [hclose, ← List.append_assoc, List.append_assoc (cstr "NTP: Send failed (err=")]
        refine .line (by decide) (by decide) ?_
        have : lf ∉ cstr ")" := by decide
        simp [lf_not_mem_fmtD, this]
      · exact ((hreq.puts hto).puts (.of_split (by decide))).trans (awaitReply_logs _ _ _ _)

end SpeakingClock
