import Courseware.Script.Template

/-!
What the scripts of all packages have in common: answers are checked and commented on.
-/

namespace Courseware.Script

/-- Checking an answer. -/
def answerChecks : String := "  // --- Answer feedback -----------------------------------------------------

  function closestQuestion(el) \x7b
    while (el && !(el.classList && el.classList.contains('question'))) \x7b
      el = el.parentNode;
    \x7d
    return el;
  \x7d

  function evaluate(el, response, correct) \x7b
    if (correct === true || correct === false) \x7b
      return correct;
    \x7d
    var question = closestQuestion(el);
    if (!question) \x7b
      return false;
    \x7d
    var answers = JSON.parse(question.getAttribute('data-answers') || '[]');
    var caseSensitive = question.getAttribute('data-case-sensitive') === 'true';
    var given = String(response).trim();
    for (var i = 0; i < answers.length; i++) \x7b
      var expected = String(answers[i]).trim();
      if (caseSensitive ? given === expected : given.toLowerCase() === expected.toLowerCase()) \x7b
        return true;
      \x7d
    \x7d
    return false;
  \x7d

"

/-- Showing what there is to say about an answer. -/
def answerFeedback : String := "  function showFeedback(el, correct) \x7b
    var question = closestQuestion(el);
    if (!question) \x7b
      return;
    \x7d
    var feedback = question.querySelector('.feedback');
    if (feedback) \x7b
      feedback.textContent = correct ? 'Correct!' : 'Not quite. Try again.';
      feedback.className = 'feedback ' + (correct ? 'is-correct' : 'is-incorrect');
      feedback.hidden = false;
    \x7d
    var explanation = question.querySelector('.explanation');
    if (explanation) \x7b
      explanation.hidden = false;
    \x7d
  \x7d

"

end Courseware.Script
