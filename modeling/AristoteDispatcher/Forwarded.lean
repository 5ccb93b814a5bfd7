-- The answer of a server as the client reads it. Status, headers and content come
-- to it by three ways: the status is that of a new response, the headers are
-- those of the server, and the content is decoded already.
import AristoteDispatcher.GivenBack

open runs places http
open json (Json PyStr)
open aristote_dispatcher.messages aristote_dispatcher.rpc_client

namespace aristote_dispatcher.proxy

variable {validate : List (PyStr × Json) → Option MessageData} {s s' : Sender} {p : Proxy}
  {call : Call} {res : LLMResponse} {response : StreamingResponse}

/-- The payload of the server: the content that httpx decoded. -/
def LLMResponse.payload (res : LLMResponse) : ByteArray := join res.chunks

/-- The response is what `StreamingResponse` makes of that of the server, up to the chunks that
are left. -/
structure Forwards (p : Proxy) (res : LLMResponse) (response : StreamingResponse)
    (left : List ByteArray) : Prop where
  status_code : response.status_code = 200
  headers : response.headers = res.headers
  chunks : response.chunks ++ left = res.aiter_bytes p.request.stream

end aristote_dispatcher.proxy
