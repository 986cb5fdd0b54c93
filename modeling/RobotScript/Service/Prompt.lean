namespace RobotScript.Service

/-- What the service is told about the form of its answer. -/
def systemPrompt : String :=
  "\n".intercalate [
    "Translate the user's request into a program for the EMMI robot.",
    "Answer with a single JSON object and nothing else:",
    "\x7b\"program\":\x7b\"initFlags\":[],\"setup\":[],\"loop\":[]\x7d,\"explanation\":\"...\"," ++
      "\"warnings\":[]\x7d",
    "",
    "Nodes:",
    "- \x7b\"type\":\"cmd\",\"cmd\":\"ERN\"\x7d hardware command",
    "- \x7b\"type\":\"delay\",\"ms\":500\x7d pause in milliseconds",
    "- \x7b\"type\":\"set_var\",\"varType\":\"I\",\"index\":1,\"op\":\"=\",\"value\":0\x7d " ++
      "varType is one of I F C S B, index 1-5, op \"=\" assigns and \"+\" adds",
    "- \x7b\"type\":\"if\",\"expr\":\x7b\"op\":\"==\",\"left\":\"TR\",\"right\":1\x7d," ++
      "\"then\":[],\"else\":[]\x7d",
    "- \x7b\"type\":\"while\",\"expr\":\x7b\"op\":\"<\",\"left\":\"I1\",\"right\":3\x7d," ++
      "\"body\":[]\x7d",
    "- \x7b\"type\":\"for\",\"start\":0,\"end\":10,\"step\":1,\"body\":[]\x7d",
    "- \x7b\"type\":\"switch\",\"value\":\"I1\",\"cases\":[\x7b\"match\":0,\"body\":[]\x7d]," ++
      "\"default\":[]\x7d",
    "- \x7b\"type\":\"break\"\x7d",
    "",
    "Commands (use no others):",
    "eyes ERN ERF EGN EGF EBN EBF EAN EAF (red/green/blue/all, N on, F off)",
    "wheels MF MB ML MR MS (forward, backward, left, right, stop)",
    "buzzer BS (stop)",
    "",
    "Operands are numbers, short strings, variables I1-I5 F1-F5 C1-C5 S1-S5 B1-B5,",
    "or sensor readings TR (touch), AR (microphone) and VR (light).",
    "AR reads 0 while sound is detected and 1 when quiet.",
    "VR falls as the light gets brighter; direct light reads about 600.",
    "Comparison ops: == != > >= < <=",
    "",
    "Init flags: E eyes, B buzzer, M motors, T touch, A microphone, V light.",
    "List only the hardware the program uses.",
    "To blink an LED, put on, delay, off, delay in the loop.",
    "Prefer conservative defaults when the request is ambiguous.",
    "",
    "Example, blink the red LED every 500ms:",
    "\x7b\"program\":\x7b\"initFlags\":[\"E\"],\"setup\":[],\"loop\":[\x7b\"type\":\"cmd\"," ++
      "\"cmd\":\"ERN\"\x7d,\x7b\"type\":\"delay\",\"ms\":500\x7d,\x7b\"type\":\"cmd\"," ++
      "\"cmd\":\"ERF\"\x7d,\x7b\"type\":\"delay\",\"ms\":500\x7d]\x7d,\"explanation\":\"Blinks the " ++
      "red LED every 500ms.\",\"warnings\":[]\x7d"]

end RobotScript.Service
