import AnswerStream.Chat.Session

/-!
# A service that cannot be reached

Requests and connections to addresses that are no addresses fail before anything
is sent.  Each failure names the address that was tried.
-/

namespace AnswerStream
namespace Chat
namespace Remote

/-- Why an address cannot be used. -/
def detail : String := "builder error"

/-- The backend of a configuration none of whose addresses can be used.  Its state
is the time. -/
def backend (config : Config) : Backend Nat Unit where
  now time := time
  newId := numberedId
  chatId time := (.error (.request config.chatIdUrl detail), time)
  history chatId time := (.error (.request (config.historyUrl chatId) detail), time)
  clear chatId _ time := (.error (.request (config.clearUrl chatId) detail), time)
  vote _ _ _ time := (.error (.request config.voteUrl detail), time)
  connect url time := (.error (.connect url detail), time)
  send _ _ time := (.error (.send detail), time)
  receive _ time := (.exhausted, time)
  close _ _ time := (.error (.close detail), time)

end Remote
end Chat
end AnswerStream
